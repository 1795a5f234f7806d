import GbaStation.Common.ByteMemory
import GbaStation.Common.LexicalPath
import Mathlib.Data.List.TakeWhile

/-!
# Guest paths (`core/file_sys/path_parser.cpp`)

`PathParser` splits a guest path into components, refuses the ones that lead above the root, and
puts the others behind a mount point of the host.

- A string of fewer than 2^32 bytes has fewer than 2^31 components, so that `level` does not
  overflow.
- `pathParser_sandbox`: a valid path keeps the host file system below the mount point, and validity
  and `is_root` say where the path leads.
-/

namespace GbaStation.FileSys

open LexicalPath

/-! ## The parser -/

inductive LowPathType
  | invalid
  | empty
  | binary
  | char
  | wchar
deriving DecidableEq, Repr

/-- `Path`, without its binary data, which has no string. -/
structure Path where
  type : LowPathType
  string : List Byte
  u16str : List (BitVec 16)

/-- The characters '/' and ".", and the name of the parent directory. -/
def slash : Byte := 0x2F

def dot : List Byte := [0x2E]

def dotDot : List Byte := [0x2E, 0x2E]

/-- The characters of "<>\|:", and the quotation mark, star and question mark. -/
def invalidChars : List Byte := [0x3C, 0x3E, 0x5C, 0x7C, 0x3A, 0x22, 0x2A, 0x3F]

/-- `std::getline`: the characters up to the delimiter or the end, and what is behind it. -/
def getline (delim : Byte) : List Byte → Option (List Byte × List Byte)
  | [] => none
  | c :: stream =>
    some ((c :: stream).takeWhile (· ≠ delim), ((c :: stream).dropWhile (· ≠ delim)).drop 1)

/-- The loop of `SplitString`. -/
def splitLoop (delim : Byte) : Nat → List Byte → List (List Byte)
  | 0, _ => []
  | fuel + 1, stream =>
    match getline delim stream with
    | none => []
    | some (piece, stream) => piece :: splitLoop delim fuel stream

/-- `SplitString`. Every turn of its loop takes a character. -/
def splitString (str : List Byte) (delim : Byte) : List (List Byte) :=
  splitLoop delim str.length str

structure PathParser where
  pathSequence : List (List Byte) := []
  isValid : Bool := false
  isRoot : Bool := false

/-- The loop over the components; `none` when a level is negative. -/
def checkLevels : List (List Byte) → Int → Option Int
  | [], level => some level
  | node :: rest, level =>
    if node = dotDot then
      let level := level - 1
      if level < 0 then none else checkLevels rest level
    else checkLevels rest (level + 1)

section Parser

variable (utf16ToUtf8 : List (BitVec 16) → List Byte)

/-- `Path::AsString`. -/
def Path.asString (path : Path) : List Byte :=
  match path.type with
  | .char => path.string
  | .wchar => utf16ToUtf8 path.u16str
  | _ => []

/-- The constructor of `PathParser`. -/
def PathParser.parse (path : Path) : PathParser :=
  if path.type ≠ .char ∧ path.type ≠ .wchar then {}
  else
    let pathString := path.asString utf16ToUtf8
    if pathString.length = 0 ∨ pathString.head? ≠ some slash then {}
    else if pathString.any (· ∈ invalidChars) then {}
    else
      let pathSequence := (splitString pathString slash).filter fun str =>
        !(str = [] || str = dot)
      -- checks if the path is out of bounds
      match checkLevels pathSequence 0 with
      | none => { pathSequence := pathSequence }
      | some level =>
        { pathSequence := pathSequence, isValid := true, isRoot := level = 0 }

end Parser

/-! ## Host paths -/

/-- What the host file system answers. -/
structure Host where
  fileExists : List Byte → Bool
  isDirectory : List Byte → Bool

inductive HostStatus
  | invalidMountPoint
  | pathNotFound
  | fileInPath
  | fileFound
  | directoryFound
  | notFound
deriving DecidableEq, Repr

section HostPaths

variable (emptyBack : Byte)

/-- `path.back()`. -/
def back (path : List Byte) : Byte := path.getLast?.getD emptyBack

/-- A component behind a host path. -/
def addNode (path node : List Byte) : List Byte :=
  (if back emptyBack path ≠ slash then path ++ [slash] else path) ++ node

/-- The loop of `GetHostStatus` over the components but the last; `error` when the function
returns. -/
def walkNodes (host : Host) : List (List Byte) → List Byte → Except HostStatus (List Byte)
  | [], path => .ok path
  | node :: rest, path =>
    let path := addNode emptyBack path node
    if !host.fileExists path then .error .pathNotFound
    else if host.isDirectory path then walkNodes host rest path
    else .error .fileInPath

/-- `PathParser::GetHostStatus`. -/
def PathParser.getHostStatus (host : Host) (p : PathParser) (mountPoint : List Byte) : HostStatus :=
  if !host.isDirectory mountPoint then .invalidMountPoint
  else
    match p.pathSequence.getLast? with
    | none => .directoryFound
    | some last =>
      match walkNodes emptyBack host p.pathSequence.dropLast mountPoint with
      | .error status => status
      | .ok path =>
        let path := path ++ slash :: last
        if !host.fileExists path then .notFound
        else if host.isDirectory path then .directoryFound
        else .fileFound

/-- `PathParser::BuildHostPath`. -/
def PathParser.buildHostPath (p : PathParser) (mountPoint : List Byte) : List Byte :=
  p.pathSequence.foldl (addNode emptyBack) mountPoint

end HostPaths

/-! ## Where paths lead -/

/-- A component that stays where it is. -/
def staysThere (c : List Byte) : Bool := c = [] || c = dot

/-- Where components lead from the root. -/
def resolve (components : List (List Byte)) : Option (List (List Byte)) :=
  follow dotDot staysThere [] components

/-- A host path at or below a mount point: behind the mount point is a path that does not lead
above it, and that has none of the refused characters. -/
def Below (mountPoint path : List Byte) : Prop :=
  ∃ rest, path = mountPoint ++ rest ∧
    (rest = [] ∨ rest.head? = some slash ∨ mountPoint.getLast? = some slash ∨ mountPoint = []) ∧
    (resolve (names slash rest)).isSome ∧ ∀ b ∈ rest, b ∉ invalidChars

/-! ## Splitting -/

/-- A piece has no delimiter, and one or the end is behind it. -/
theorem getline_some {delim c : Byte} {stream : List Byte} :
    ∃ piece rest, getline delim (c :: stream) = some (piece, rest) ∧ delim ∉ piece ∧
      (c :: stream = piece ++ delim :: rest ∨ c :: stream = piece ∧ rest = []) := by
  have hsplit := List.takeWhile_append_dropWhile (p := (· ≠ delim)) (l := c :: stream)
  refine ⟨_, _, rfl, fun hmem => by simpa using List.mem_takeWhile_imp hmem, ?_⟩
  cases hrest : (c :: stream).dropWhile (· ≠ delim) with
  | nil =>
    right
    rw [hrest, List.append_nil] at hsplit
    exact ⟨hsplit.symm, rfl⟩
  | cons d rest =>
    left
    have hd : d = delim := by
      have hnot := List.head?_dropWhile_not (· ≠ delim) (c :: stream)
      rw [hrest] at hnot
      simpa using hnot
    rw [hrest, hd] at hsplit
    exact hsplit.symm

/-- The pieces are the components, and perhaps empty ones. -/
theorem splitLoop_names (delim : Byte) (fuel : Nat) :
    ∀ {stream : List Byte}, stream.length ≤ fuel →
      (splitLoop delim fuel stream).filter (· ≠ []) = names delim stream := by
  induction fuel with
  | zero =>
    intro stream h
    rw [List.length_eq_zero_iff.mp (Nat.le_zero.mp h)]
    rfl
  | succ fuel ih =>
    intro stream h
    cases stream with
    | nil => rfl
    | cons c stream =>
      obtain ⟨piece, rest, hline, hpiece, hstream⟩ := @getline_some delim c stream
      have hnames : ([piece] : List (List Byte)).filter (· ≠ []) = names delim piece := by
        cases piece with
        | nil => rfl
        | cons d piece => rw [names_of_notMem hpiece (List.cons_ne_nil _ _)]; rfl
      rw [splitLoop, hline]
      show ([piece] ++ splitLoop delim fuel rest).filter (· ≠ []) = _
      rw [List.filter_append, hnames]
      rcases hstream with hstream | ⟨hstream, rfl⟩
      · have hlen := congrArg List.length hstream
        rw [List.length_append, List.length_cons] at hlen
        rw [ih (by simp only [List.length_cons] at h hlen; omega), hstream, names_append]
      · rw [ih (Nat.zero_le _), hstream, names_nil, List.append_nil]

theorem splitLoop_mem (delim : Byte) (fuel : Nat) :
    ∀ {stream piece : List Byte}, piece ∈ splitLoop delim fuel stream →
      delim ∉ piece ∧ ∀ b ∈ piece, b ∈ stream := by
  induction fuel with
  | zero => exact fun h => absurd h List.not_mem_nil
  | succ fuel ih =>
    intro stream piece h
    cases stream with
    | nil => exact absurd h List.not_mem_nil
    | cons c stream =>
      obtain ⟨first, rest, hline, hfirst, hstream⟩ := @getline_some delim c stream
      rw [splitLoop, hline] at h
      rcases List.mem_cons.mp h with rfl | h
      · refine ⟨hfirst, fun b hb => ?_⟩
        rcases hstream with hstream | ⟨hstream, -⟩
        · exact hstream ▸ List.mem_append_left _ hb
        · exact hstream ▸ hb
      · refine ⟨(ih h).1, fun b hb => ?_⟩
        rcases hstream with hstream | ⟨-, rfl⟩
        · exact hstream ▸ List.mem_append_right _ (List.mem_cons_of_mem _ ((ih h).2 b hb))
        · exact absurd ((ih h).2 b hb) List.not_mem_nil

/-! ## Levels -/

/-- The level is the number of directories below the root. -/
theorem checkLevels_eq (components : List (List Byte)) :
    ∀ {stack : List (List Byte)}, (∀ c ∈ components, staysThere c = false) →
      checkLevels components stack.length =
        (follow dotDot staysThere stack components).map fun stack => (stack.length : Int) := by
  induction components with
  | nil => exact fun _ => rfl
  | cons c components ih =>
    intro stack h
    obtain ⟨hc, hrest⟩ := List.forall_mem_cons.mp h
    rw [checkLevels, follow, List.foldlM_cons]
    by_cases hparent : c = dotDot
    · subst hparent
      rw [if_pos rfl]
      cases stack with
      | nil =>
        rw [enter_parent_root hc]
        rfl
      | cons _ stack =>
        have hlevel : ((stack.length + 1 : Nat) : Int) - 1 = stack.length := by omega
        rw [enter_parent hc, List.length_cons, hlevel]
        rw [if_neg (by omega)]
        exact ih hrest
    · rw [if_neg hparent, enter_name hc hparent]
      exact @ih (c :: stack) hrest

/-! ## The parser -/

section Parser

variable (utf16ToUtf8 : List (BitVec 16) → List Byte) (path : Path)

/-- A path of characters that begins with a slash and has none of the refused characters. -/
structure Path.Plain : Prop where
  type : path.type = .char ∨ path.type = .wchar
  slash : (path.asString utf16ToUtf8).head? = some slash
  chars : ∀ b ∈ path.asString utf16ToUtf8, b ∉ invalidChars

/-- The components of a path. -/
def Path.components : List (List Byte) := names slash (path.asString utf16ToUtf8)

variable {utf16ToUtf8 path}

theorem parse_of_not_plain (h : ¬path.Plain utf16ToUtf8) :
    PathParser.parse utf16ToUtf8 path = {} := by
  unfold PathParser.parse
  by_cases htype : path.type ≠ .char ∧ path.type ≠ .wchar
  · rw [if_pos htype]
  rw [if_neg htype]
  by_cases hslash : (path.asString utf16ToUtf8).length = 0 ∨
      (path.asString utf16ToUtf8).head? ≠ some slash
  · rw [if_pos hslash]
  rw [if_neg hslash, if_pos]
  by_contra hchars
  push Not at hslash
  refine h ⟨?_, hslash.2, fun b hb hinvalid => hchars ?_⟩
  · by_contra htypes
    exact htype (not_or.mp htypes)
  · exact List.any_eq_true.mpr ⟨b, hb, decide_eq_true hinvalid⟩

/-- The components that are kept. -/
def kept (components : List (List Byte)) : List (List Byte) :=
  components.filter fun c => !staysThere c

theorem splitString_kept (str : List Byte) :
    (splitString str slash).filter (fun c => !staysThere c) = kept (names slash str) := by
  rw [kept, ← splitLoop_names slash str.length (Nat.le_refl _), List.filter_filter, splitString]
  refine List.filter_congr fun c _ => ?_
  cases c with
  | nil => rfl
  | cons b c => simp [staysThere]

theorem resolve_kept (components : List (List Byte)) :
    resolve (kept components) = resolve components :=
  follow_filter components

/-- The sequence of a plain path, and whether and where it leads. -/
theorem parse_plain (h : path.Plain utf16ToUtf8) :
    (PathParser.parse utf16ToUtf8 path).pathSequence = kept (path.components utf16ToUtf8) ∧
    ((PathParser.parse utf16ToUtf8 path).isValid = true ↔
      (resolve (path.components utf16ToUtf8)).isSome) ∧
    ((PathParser.parse utf16ToUtf8 path).isRoot = true ↔
      resolve (path.components utf16ToUtf8) = some []) := by
  have hslash : ¬((path.asString utf16ToUtf8).length = 0 ∨
      (path.asString utf16ToUtf8).head? ≠ some slash) := by
    rintro (hlen | hne)
    · have hhead := h.slash
      rw [List.length_eq_zero_iff.mp hlen] at hhead
      cases hhead
    · exact hne h.slash
  have hchars : ¬((path.asString utf16ToUtf8).any fun b => decide (b ∈ invalidChars)) = true := by
    intro hany
    obtain ⟨b, hb, hinvalid⟩ := List.any_eq_true.mp hany
    exact h.chars b hb (of_decide_eq_true hinvalid)
  have hstays : ∀ c ∈ kept (path.components utf16ToUtf8), staysThere c = false := fun c hc => by
    simpa using (List.mem_filter.mp hc).2
  have hsequence : (splitString (path.asString utf16ToUtf8) slash).filter
      (fun str => !(str = [] || str = dot)) = kept (path.components utf16ToUtf8) :=
    splitString_kept _
  have hlevels := @checkLevels_eq _ [] hstays
  rw [← resolve_kept, resolve]
  unfold PathParser.parse
  rw [if_neg (fun htype => h.type.elim htype.1 htype.2)]
  simp only
  rw [if_neg hslash, if_neg hchars, hsequence,
    show (0 : Int) = ([] : List (List Byte)).length from rfl, hlevels]
  cases hfollow : follow dotDot staysThere [] (kept (path.components utf16ToUtf8)) with
  | none => simp
  | some stack => simp

theorem mem_kept (h : path.Plain utf16ToUtf8) :
    ∀ c ∈ kept (path.components utf16ToUtf8),
      c ≠ [] ∧ slash ∉ c ∧ ∀ b ∈ c, b ∉ invalidChars := by
  intro c hc
  rw [Path.components, ← splitString_kept] at hc
  obtain ⟨hmem, hstays⟩ := List.mem_filter.mp hc
  obtain ⟨hslash, hchars⟩ := splitLoop_mem slash _ hmem
  refine ⟨?_, hslash, fun b hb => h.chars b (hchars b hb)⟩
  rintro rfl
  exact absurd hstays (by decide)

end Parser

/-! ## Host paths stay below the mount point -/

section HostPaths

variable {emptyBack : Byte} {mountPoint path rest node : List Byte} {nodes : List (List Byte)}

/-- A host path with components behind a mount point. -/
structure Behind (mountPoint path rest : List Byte) (nodes : List (List Byte)) : Prop where
  path_eq : path = mountPoint ++ rest
  start : rest = [] ∨ rest.head? = some slash ∨ mountPoint.getLast? = some slash ∨ mountPoint = []
  names : names slash rest = nodes
  chars : ∀ b ∈ rest, b ∉ invalidChars
  tail : rest = [] ∨ ∃ b, rest.getLast? = some b ∧ b ≠ slash

theorem Behind.refl : Behind mountPoint mountPoint [] [] where
  path_eq := (List.append_nil _).symm
  start := .inl rfl
  names := rfl
  chars := fun _ h => absurd h List.not_mem_nil
  tail := .inl rfl

theorem Behind.below (h : Behind mountPoint path rest nodes) (hnodes : (resolve nodes).isSome) :
    Below mountPoint path :=
  ⟨rest, h.path_eq, h.start, h.names ▸ hnodes, h.chars⟩

theorem getLast?_node (hne : node ≠ []) (hslash : slash ∉ node) (before : List Byte) :
    ∃ b, (before ++ node).getLast? = some b ∧ b ≠ slash := by
  refine ⟨node.getLast hne, ?_, fun heq => hslash (heq ▸ List.getLast_mem hne)⟩
  rw [List.getLast?_append, List.getLast?_eq_some_getLast hne]
  rfl

section Node

variable (h : Behind mountPoint path rest nodes) (hne : node ≠ []) (hslash : slash ∉ node)
  (hchars : ∀ b ∈ node, b ∉ invalidChars)
include h hne hslash hchars

/-- A separator and a component. -/
theorem Behind.separated :
    Behind mountPoint (path ++ slash :: node) (rest ++ slash :: node) (nodes ++ [node]) where
  path_eq := by rw [h.path_eq, List.append_assoc]
  start := by
    rcases h.start with rfl | hhead | hmount
    · exact .inr (.inl rfl)
    · right; left
      cases rest with
      | nil => exact absurd hhead (by simp)
      | cons b rest => exact hhead
    · exact .inr (.inr hmount)
  names := by rw [names_append, h.names, names_of_notMem hslash hne]
  chars := by
    intro b hb
    rcases List.mem_append.mp hb with hb | hb
    · exact h.chars b hb
    · rcases List.mem_cons.mp hb with rfl | hb
      · decide
      · exact hchars b hb
  tail := by
    right
    rw [List.append_cons]
    exact getLast?_node hne hslash _

/-- A component that is added. -/
theorem Behind.addNode :
    ∃ rest', Behind mountPoint (addNode emptyBack path node) rest' (nodes ++ [node]) := by
  unfold FileSys.addNode
  by_cases hback : back emptyBack path ≠ slash
  · rw [if_pos hback, List.append_assoc]
    exact ⟨_, h.separated hne hslash hchars⟩
  · rw [if_neg hback]
    rw [not_not] at hback
    rcases h.tail with rfl | ⟨b, hb, hbslash⟩
    · -- the mount point ends with the separator
      have hpath : path = mountPoint := by rw [h.path_eq, List.append_nil]
      have hnodes : nodes = [] := h.names.symm
      subst hpath hnodes
      refine ⟨node, ⟨rfl, .inr (.inr ?_), names_of_notMem hslash hne, hchars, .inr ?_⟩⟩
      · cases hlast : path.getLast? with
        | none => exact .inr (List.getLast?_eq_none_iff.mp hlast)
        | some b =>
          rw [back, hlast] at hback
          exact .inl (congrArg some hback)
      · exact getLast?_node hne hslash []
    · rw [back, h.path_eq, List.getLast?_append, hb] at hback
      exact absurd hback hbslash

end Node

/-- Components that stay below the root at each of them, with none of the refused characters. -/
structure StayBelow (nodes : List (List Byte)) : Prop where
  resolves : (resolve nodes).isSome
  ne_nil : ∀ c ∈ nodes, c ≠ []
  slash : ∀ c ∈ nodes, slash ∉ c
  chars : ∀ c ∈ nodes, ∀ b ∈ c, b ∉ invalidChars

theorem StayBelow.of_prefix {nodes' : List (List Byte)} (h : StayBelow nodes)
    (hpre : nodes' <+: nodes) : StayBelow nodes' where
  resolves := follow_isSome_of_prefix hpre h.resolves
  ne_nil c hc := h.ne_nil c (hpre.subset hc)
  slash c hc := h.slash c (hpre.subset hc)
  chars c hc := h.chars c (hpre.subset hc)

theorem Behind.addNext {todo : List (List Byte)} (h : Behind mountPoint path rest nodes)
    (hstay : StayBelow (nodes ++ node :: todo)) : ∃ rest',
      Behind mountPoint (FileSys.addNode emptyBack path node) rest' (nodes ++ [node]) := by
  have hmem : node ∈ nodes ++ node :: todo := List.mem_append_right _ List.mem_cons_self
  exact h.addNode (hstay.ne_nil node hmem) (hstay.slash node hmem) (hstay.chars node hmem)

/-- The path that `BuildHostPath` builds. -/
theorem Behind.foldl (todo : List (List Byte)) :
    ∀ {path rest : List Byte} {nodes : List (List Byte)}, Behind mountPoint path rest nodes →
      StayBelow (nodes ++ todo) →
      ∃ rest', Behind mountPoint (todo.foldl (FileSys.addNode emptyBack) path) rest'
        (nodes ++ todo) := by
  induction todo with
  | nil =>
    intro path rest nodes h _
    rw [List.append_nil]
    exact ⟨rest, h⟩
  | cons node todo ih =>
    intro path rest nodes h hstay
    obtain ⟨rest', h'⟩ := h.addNext hstay
    rw [List.append_cons] at hstay ⊢
    exact ih h' hstay

variable {host host' : Host}

/-- Two hosts with the same files at and below a mount point. -/
def SameBelow (mountPoint : List Byte) (host host' : Host) : Prop :=
  ∀ path, Below mountPoint path →
    host.fileExists path = host'.fileExists path ∧ host.isDirectory path = host'.isDirectory path

/-- The loop of `GetHostStatus` asks below the mount point only. -/
theorem walkNodes_congr (hsame : SameBelow mountPoint host host') (todo : List (List Byte)) :
    ∀ {path rest : List Byte} {nodes : List (List Byte)}, Behind mountPoint path rest nodes →
      StayBelow (nodes ++ todo) →
      walkNodes emptyBack host todo path = walkNodes emptyBack host' todo path ∧
        ∀ path', walkNodes emptyBack host todo path = .ok path' →
          ∃ rest', Behind mountPoint path' rest' (nodes ++ todo) := by
  induction todo with
  | nil =>
    intro path rest nodes h _
    refine ⟨rfl, fun path' hpath => ?_⟩
    cases hpath
    rw [List.append_nil]
    exact ⟨rest, h⟩
  | cons node todo ih =>
    intro path rest nodes h hstay
    obtain ⟨rest', h'⟩ := h.addNext hstay
    rw [List.append_cons] at hstay ⊢
    have hbelow := h'.below (hstay.of_prefix (List.prefix_append _ _)).resolves
    obtain ⟨hexists, hdirectory⟩ := hsame _ hbelow
    rw [walkNodes, walkNodes, ← hexists, ← hdirectory]
    split_ifs with hmissing hdir
    · exact ⟨rfl, fun _ hpath => by cases hpath⟩
    · exact ih h' hstay
    · exact ⟨rfl, fun _ hpath => by cases hpath⟩

theorem getHostStatus_congr {p : PathParser} (hsame : SameBelow mountPoint host host')
    (hstay : StayBelow p.pathSequence) :
    p.getHostStatus emptyBack host mountPoint = p.getHostStatus emptyBack host' mountPoint := by
  have hmount := hsame mountPoint (Behind.refl.below rfl)
  unfold PathParser.getHostStatus
  rw [← hmount.2]
  split_ifs with hdirectory
  · rfl
  cases hlast : p.pathSequence.getLast? with
  | none => rfl
  | some last =>
    have hsequence : p.pathSequence.dropLast ++ [last] = p.pathSequence :=
      List.dropLast_append_getLast? last hlast
    have hmem : last ∈ p.pathSequence := List.mem_of_getLast? hlast
    obtain ⟨hwalk, hbehind⟩ := @walkNodes_congr emptyBack _ _ _ hsame
      p.pathSequence.dropLast _ _ _ Behind.refl (hstay.of_prefix (List.dropLast_prefix _))
    rw [← hwalk]
    cases hresult : walkNodes emptyBack host p.pathSequence.dropLast mountPoint with
    | error status => rfl
    | ok path =>
      obtain ⟨rest, h⟩ := hbehind path hresult
      have hlastPath := h.separated (hstay.ne_nil last hmem) (hstay.slash last hmem)
        (hstay.chars last hmem)
      rw [List.nil_append, hsequence] at hlastPath
      obtain ⟨hexists, hdir⟩ := hsame _ (hlastPath.below hstay.resolves)
      simp only [hexists, hdir]

end HostPaths

/-! ## The sandbox -/

/-- For every guest path, every mount point and every host: a valid path keeps each beginning of its
sequence at or below the mount point and free of the refused characters, the host path built from it
is there, and so is everything that the host is asked. A plain path is invalid exactly when a
beginning of its components leads above the root, and `is_root` says that it leads to the root. -/
theorem pathParser_sandbox (utf16ToUtf8 : List (BitVec 16) → List Byte) (emptyBack : Byte)
    (path : Path) (mountPoint : List Byte) :
    ((PathParser.parse utf16ToUtf8 path).isValid = true →
      (∀ nodes, nodes <+: (PathParser.parse utf16ToUtf8 path).pathSequence →
        (resolve nodes).isSome ∧ ∀ c ∈ nodes, ∀ b ∈ c, b ∉ invalidChars ∧ b ≠ slash) ∧
      Below mountPoint ((PathParser.parse utf16ToUtf8 path).buildHostPath emptyBack mountPoint) ∧
      ∀ host host', SameBelow mountPoint host host' →
        (PathParser.parse utf16ToUtf8 path).getHostStatus emptyBack host mountPoint =
          (PathParser.parse utf16ToUtf8 path).getHostStatus emptyBack host' mountPoint) ∧
    (path.Plain utf16ToUtf8 →
      ((PathParser.parse utf16ToUtf8 path).isValid = false ↔
        ∃ nodes, nodes <+: path.components utf16ToUtf8 ∧ resolve nodes = none)) ∧
    ((PathParser.parse utf16ToUtf8 path).isRoot = true ↔
      path.Plain utf16ToUtf8 ∧ resolve (path.components utf16ToUtf8) = some []) := by
  by_cases hplain : path.Plain utf16ToUtf8
  swap
  · rw [parse_of_not_plain hplain]
    exact ⟨fun h => absurd h Bool.false_ne_true, fun h => absurd h hplain,
      ⟨fun h => absurd h Bool.false_ne_true, fun h => absurd h.1 hplain⟩⟩
  obtain ⟨hsequence, hvalid, hroot⟩ := parse_plain hplain
  refine ⟨fun h => ?_, fun _ => ?_, ?_⟩
  · have hkept := mem_kept hplain
    have hstay : StayBelow (PathParser.parse utf16ToUtf8 path).pathSequence := by
      rw [hsequence]
      exact ⟨by rw [resolve_kept]; exact hvalid.mp h, fun c hc => (hkept c hc).1,
        fun c hc => (hkept c hc).2.1, fun c hc => (hkept c hc).2.2⟩
    refine ⟨fun nodes hnodes => ?_, ?_, fun host host' hsame => getHostStatus_congr hsame hstay⟩
    · have hpre := hstay.of_prefix hnodes
      exact ⟨hpre.resolves, fun c hc b hb =>
        ⟨hpre.chars c hc b hb, fun heq => hpre.slash c hc (heq ▸ hb)⟩⟩
    · have hmount : Behind mountPoint mountPoint [] [] := Behind.refl
      obtain ⟨rest, hbehind⟩ := @Behind.foldl emptyBack _ _ _ _ _ hmount hstay
      exact hbehind.below hstay.resolves
  · rw [← Bool.not_eq_true, hvalid, Option.isSome_iff_ne_none, not_not]
    exact follow_eq_none_iff
  · rw [hroot]
    exact ⟨fun h => ⟨hplain, h⟩, And.right⟩

/-- The path "/a/..", which is the root. -/
def rootPath : Path := ⟨.char, slash :: 0x61 :: slash :: dotDot, []⟩

theorem rootPath_sandbox :
    (PathParser.parse (fun _ => []) rootPath).isRoot = true ∧
      Below [0x2F, 0x6D]
        ((PathParser.parse (fun _ => []) rootPath).buildHostPath 0 [0x2F, 0x6D]) := by
  obtain ⟨hvalid, -, hroot⟩ := pathParser_sandbox (fun _ => []) 0 rootPath [0x2F, 0x6D]
  exact ⟨hroot.mpr ⟨⟨.inl rfl, rfl, by decide⟩, by decide⟩, (hvalid (by decide)).2.1⟩

end GbaStation.FileSys
