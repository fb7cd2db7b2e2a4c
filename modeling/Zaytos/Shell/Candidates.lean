import Zaytos.Common.Complete
import Zaytos.Kernel.Dirents
import Zaytos.Lib.Terminated
import Zaytos.Shell.Line

set_option autoImplicit false

/-! The names that the shell comes to when a word is to be completed, one directory after the
other, and how often it comes to each. -/
namespace Zaytos.Shell

open Common (Word blank directoryPart lastWord namePart onlyWord slash splitPath startsWith
  startsWith_iff)
open Fs (DirEntry)
open Kernel (Named forEachDirent)
open Kernel.Listing
open Terminated (linesOf text)

abbrev nameMax : Nat := 32

abbrev profilePathMax : Nat := 64

abbrev direntBuf : Nat := 256

abbrev pathSeparator : UInt8 := 0x3A

abbrev tilde : UInt8 := 0x7E

def builtinExit : List UInt8 := bytesOf ['e', 'x', 'i', 't']
def builtinExport : List UInt8 := bytesOf ['e', 'x', 'p', 'o', 'r', 't']
def builtinSet : List UInt8 := bytesOf ['s', 'e', 't']

def builtins : List (List UInt8) := [builtinExit, builtinExport, builtinSet]

def pathName : List UInt8 := bytesOf ['P', 'A', 'T', 'H']
def homeName : List UInt8 := bytesOf ['H', 'O', 'M', 'E']

def dot : List UInt8 := bytesOf ['.']
def dotDot : List UInt8 := bytesOf ['.', '.']

structure Directory where
  entries : List DirEntry
  named : ∀ e ∈ entries, Named e
  short : ∀ e ∈ entries, e.name.length ≤ nameMax
  distinct : (entries.map DirEntry.name).Nodup

/-- What is around the shell: its environment, and the directories that can be opened. -/
structure Surroundings where
  environmentValue : List UInt8 → Option (List UInt8)
  directory : List UInt8 → Option Directory

/-- `getdents64` into a buffer of `DIRENT_BUF` bytes where so many entries are left: what is
written, and what is left then. -/
def getdents64 (left : List DirEntry) : List UInt8 × List DirEntry :=
  (records (left.take (fitting left direntBuf)), left.drop (fitting left direntBuf))

theorem length_left {left : List DirEntry} (some : ¬ (getdents64 left).1 = []) :
    (getdents64 left).2.length < left.length := by
  have few := fitting_le left direntBuf
  rw [getdents64] at some ⊢
  dsimp only at some ⊢
  rw [List.length_drop]
  cases n : fitting left direntBuf with
  | zero => exact absurd (by rw [n]; rfl) some
  | succ n =>
    rw [n] at few
    omega

/-- The loop of `walk_directory`: the names that it comes to until a call has nothing more. -/
def readNames (left : List DirEntry) : List (List UInt8) :=
  if (getdents64 left).1 = [] then []
  else (forEachDirent (getdents64 left).1).getD [] ++ readNames (getdents64 left).2
termination_by left.length
decreasing_by exact length_left ‹_›

/-- The path that `walk_directory` opens, with the NUL behind it, if its buffer has room. -/
def openablePath (dir : List UInt8) : Option (List UInt8) :=
  if dir.getLast? = some 0 then if dir.length > profilePathMax then none else some dir
  else if dir.length + 1 > profilePathMax then none
  else some (dir ++ [0])

/-- What `walk_directory` asks of a name. -/
def isCandidate (part name : List UInt8) : Bool :=
  !(name == dot || name == dotDot) && !decide (nameMax < name.length) && startsWith name part

namespace Surroundings

/-- `open_read_only` of a path that ends at its first NUL. -/
def openReadOnly (w : Surroundings) (path : List UInt8) : Option Directory :=
  w.directory (path.takeWhile (· != 0))

/-- `walk_directory`: the names that the body is called with. -/
def walkDirectory (w : Surroundings) (dir part : List UInt8) : List (List UInt8) :=
  match (openablePath dir).bind w.openReadOnly with
  | none => []
  | some d => (readNames d.entries).filter (isCandidate part)

/-- The inner loop along `PATH`: the element from a place on. -/
def elementAt (path : List UInt8) (at' : Nat) : List UInt8 :=
  (path.drop at').takeWhile (· != pathSeparator)

/-- The loop of `earlier_element_has`, with so many elements still to be looked through. -/
def earlierElementHas (w : Surroundings) (path name : List UInt8) : Nat → Nat → Bool
  | 0, _ => false
  | left + 1, at' =>
    let element := elementAt path at'
    if decide (element.length > 0) && (w.walkDirectory element name).any (· == name) then true
    else if at' + element.length ≥ path.length then false
    else earlierElementHas w path name left (at' + element.length + 1)

def walkDirectoryDeduped (w : Surroundings) (path : List UInt8) (index : Nat)
    (element part : List UInt8) : List (List UInt8) :=
  (w.walkDirectory element part).filter fun name => !w.earlierElementHas path name index 0

/-- The loop of `walk_path_elements`. -/
def walkElementsFrom (w : Surroundings) (path part : List UInt8) (at' index : Nat) :
    List (List UInt8) :=
  let element := elementAt path at'
  let here := if element.length > 0 then w.walkDirectoryDeduped path index element part else []
  if at' + element.length ≥ path.length then here
  else here ++ walkElementsFrom w path part (at' + element.length + 1) (index + 1)
termination_by path.length - at'

def walkPathElements (w : Surroundings) (part : List UInt8) : List (List UInt8) :=
  match w.environmentValue pathName with
  | none => []
  | some path => w.walkElementsFrom path part 0 0

/-- The last loop of `resolve_directory`: how much is left without the slashes at the end. -/
def trimmed (bytes : List UInt8) : Nat → Nat
  | 0 => 0
  | length + 1 =>
    if 0 < length ∧ bytes[length]? = some slash then trimmed bytes length else length + 1

def trimSlashes (bytes : List UInt8) : List UInt8 := bytes.take (trimmed bytes bytes.length)

/-- Whether `~` stands for `HOME` in a directory. -/
def isHome (dir : List UInt8) : Bool :=
  dir.head? == some tilde && (dir.length == 1 || dir[1]? == some slash)

def homeAndRest (w : Surroundings) (dir : List UInt8) : Option (List UInt8 × List UInt8) :=
  if isHome dir then (w.environmentValue homeName).map fun home => (home, dir.drop 1)
  else some ([], dir)

def resolveDirectory (w : Surroundings) (dir : List UInt8) : Option (List UInt8) := do
  let (home, rest) ← w.homeAndRest dir
  if isHome dir && decide (home.length ≥ profilePathMax) then none
  else if home.length + rest.length + 1 > profilePathMax then none
  else some (trimSlashes (home ++ rest) ++ [0])

def forEachCandidate (w : Surroundings) (typed : List UInt8) (first : Bool) : List (List UInt8) :=
  if first && !typed.contains slash then
    builtins.filter (startsWith · typed) ++ w.walkPathElements typed
  else if (splitPath typed).1.isEmpty then []
  else
    match w.resolveDirectory (splitPath typed).1 with
    | none => []
    | some resolved => w.walkDirectory resolved (splitPath typed).2

/-! The candidates of a word. -/

/-- The names in a directory but `.` and `..`. -/
def namesIn (w : Surroundings) (dir : List UInt8) : List (List UInt8) :=
  match w.directory (dir.takeWhile (· != 0)) with
  | none => []
  | some d => (d.entries.map DirEntry.name).filter fun name => !(name == dot || name == dotDot)

/-- The directories of `PATH`. -/
def searched (w : Surroundings) : List (List UInt8) :=
  match w.environmentValue pathName with
  | none => []
  | some path => (linesOf pathSeparator path).filter fun element => !element.isEmpty

/-- The distinct names that start with a word, of the built-ins and in some directories. -/
def commandsIn (w : Surroundings) (dirs : List (List UInt8)) (typed : List UInt8) :
    List (List UInt8) :=
  ((builtins ++ dirs.flatMap w.namesIn).filter (startsWith · typed)).dedup

/-- The path of a directory as it is typed, with `~` for `HOME`. -/
def directoryPath (w : Surroundings) (dir : List UInt8) : Option (List UInt8) :=
  (w.homeAndRest dir).map fun parts => trimSlashes (parts.1 ++ parts.2)

def pathsIn (w : Surroundings) (dir part : List UInt8) : List (List UInt8) :=
  match w.directoryPath dir with
  | none => []
  | some path => (w.namesIn path).filter (startsWith · part)

/-- A path that `walk_directory` has room for. -/
def inReach (dir : List UInt8) : Bool := (openablePath dir).isSome

end Surroundings

section

variable {w : Surroundings} {dir part name : List UInt8} {path : List UInt8}

open Surroundings

theorem readNames_eq {left : List DirEntry} (named : ∀ e ∈ left, Named e)
    (short : ∀ e ∈ left, e.name.length ≤ nameMax) : readNames left = left.map DirEntry.name := by
  induction size : left.length using Nat.strongRecOn generalizing left with
  | ind size ih =>
    have limit : nameMax = 32 := rfl
    have room : direntBuf = 256 := rfl
    have whole : ∀ e ∈ left.take (fitting left direntBuf), e ∈ left :=
      fun e mem => List.mem_of_mem_take mem
    have written : ∀ e ∈ left, e.name.length ≤ 255 := fun e mem => (named e mem).short
    rw [readNames]
    by_cases none : (getdents64 left).1 = []
    · rw [if_pos none]
      have taken := (records_eq_nil fun e mem => written e (whole e mem)).mp none
      have next : ∀ e ∈ left.head?, recordLen e ≤ direntBuf := by
        intro e first
        have := short e (List.mem_of_head? first)
        rw [Kernel.recordLen_eq]
        omega
      rw [(take_fitting_eq_nil next).mp taken]
      rfl
    · have rest : readNames (getdents64 left).2 =
          (left.drop (fitting left direntBuf)).map DirEntry.name :=
        ih (getdents64 left).2.length (size ▸ length_left none)
          (fun e mem => named e (List.mem_of_mem_drop mem))
          (fun e mem => short e (List.mem_of_mem_drop mem)) rfl
      have names := Kernel.forEachFrom_records [] (fun e mem => written e (whole e mem))
        (fun e mem => (named e (whole e mem)).plain)
      rw [List.nil_append, List.length_nil] at names
      rw [if_neg none, rest, forEachDirent, getdents64]
      dsimp only
      rw [names, Option.getD_some, ← List.map_append, List.take_append_drop]

theorem takeWhile_nul (dir : List UInt8) :
    (dir ++ [0]).takeWhile (· != 0) = dir.takeWhile (· != 0) := by
  induction dir with
  | nil => rfl
  | cons byte dir ih =>
    rw [List.cons_append, List.takeWhile_cons, List.takeWhile_cons, ih]

theorem walkDirectory_eq (w : Surroundings) (dir part : List UInt8) : w.walkDirectory dir part =
    if inReach dir = true then (w.namesIn dir).filter (startsWith · part) else [] := by
  have opened : (openablePath dir).bind w.openReadOnly =
      if inReach dir = true then w.directory (dir.takeWhile (· != 0)) else none := by
    rw [inReach, openablePath]
    split
    · split <;> rfl
    · split
      · rfl
      · rw [Option.bind_some, openReadOnly, takeWhile_nul]
        rfl
  rw [walkDirectory, opened, namesIn]
  by_cases reach : inReach dir = true
  · rw [if_pos reach, if_pos reach]
    cases w.directory (dir.takeWhile (· != 0)) with
    | none => rfl
    | some d =>
      dsimp only
      rw [readNames_eq d.named d.short, List.filter_filter]
      apply List.filter_congr
      intro name mem
      obtain ⟨e, there, rfl⟩ := List.mem_map.mp mem
      have few := d.short e there
      rw [isCandidate, decide_eq_false (not_lt.mpr few), Bool.not_false, Bool.and_true,
        Bool.and_comm]
  · rw [if_neg reach, if_neg reach]

theorem mem_walkDirectory : name ∈ w.walkDirectory dir part ↔
    inReach dir = true ∧ name ∈ w.namesIn dir ∧ startsWith name part = true := by
  rw [walkDirectory_eq]
  by_cases reach : inReach dir = true
  · rw [if_pos reach, List.mem_filter]
    simp [reach]
  · rw [if_neg reach]
    simp [reach]

theorem nodup_namesIn (w : Surroundings) (dir : List UInt8) : (w.namesIn dir).Nodup := by
  rw [namesIn]
  cases w.directory (dir.takeWhile (· != 0)) with
  | none => exact List.nodup_nil
  | some d => exact d.distinct.filter _

theorem nodup_walkDirectory (w : Surroundings) (dir part : List UInt8) :
    (w.walkDirectory dir part).Nodup := by
  rw [walkDirectory_eq]
  split
  · exact (nodup_namesIn w dir).filter _
  · exact List.nodup_nil

end

end Zaytos.Shell
