import Zaytos.Ext2.Types
import Zaytos.Kernel.Wait
import Zaytos.Lib.Counting
import Mathlib.Algebra.BigOperators.Fin

set_option autoImplicit false

/-! Descriptors: what a process has open, and its table of them. -/
namespace Zaytos.Kernel

abbrev maxOpenFiles : Nat := 16

abbrev stdinFd : Nat := 0

abbrev stdoutFd : Nat := 1

abbrev stderrFd : Nat := 2

inductive SocketState where
  | unbound
  | listener (listener : Nat)
  | stream (conn : Nat) (side : Side)
  deriving DecidableEq

inductive File where
  | regular (inode : Fs.Inode) (offset : Nat) (writable : Bool)
  /-- `errors`: what is written goes to the outlet for errors. -/
  | terminal (errors : Bool)
  | pipeRead (pipe : Nat)
  | pipeWrite (pipe : Nat)
  | socket (state : SocketState)
  | shm (shm : Nat)
  | input
  | screen
  deriving DecidableEq

namespace File

def pipeReadEnd : File → Option Nat
  | .pipeRead pipe => some pipe
  | _ => none

def pipeWriteEnd : File → Option Nat
  | .pipeWrite pipe => some pipe
  | _ => none

def socketState : File → Option SocketState
  | .socket state => some state
  | _ => none

/-- The index that `shm_of` looks for. -/
def shmIndex : File → Option Nat
  | .shm index => some index
  | _ => none

/-- `inode`: only a regular file has one. -/
def inode : File → Option Fs.Inode
  | .regular inode _ _ => some inode
  | _ => none

def isWritableFile : File → Bool
  | .regular _ _ writable => writable
  | _ => false

def offset : File → Nat
  | .regular _ offset _ => offset
  | _ => 0

def isTerminal : File → Bool
  | .terminal _ => true
  | _ => false

/-- `advance`: the offset does not pass the size. -/
def advance (bytes : Nat) : File → File
  | .regular inode offset writable =>
    .regular inode (min (min (2 ^ 64 - 1) (offset + bytes)) inode.size) writable
  | file => file

end File

inductive FileTableError where
  | noFreeDescriptor
  | badDescriptor (fd : Nat)
  deriving DecidableEq, Repr

structure FileTable where
  slots : Fin maxOpenFiles → Option File

variable {t' : FileTable} {fd : Nat} {file : File}

namespace FileTable

/-- `new`: the terminal at 0, 1 and 2. -/
def new : FileTable where
  slots fd :=
    if fd.val = stdinFd ∨ fd.val = stdoutFd then some (.terminal false)
    else if fd.val = stderrFd then some (.terminal true)
    else none

def set (t : FileTable) (fd : Fin maxOpenFiles) (entry : Option File) : FileTable :=
  { slots := Function.update t.slots fd entry }

def get (t : FileTable) (fd : Nat) : Except FileTableError File :=
  if small : fd < maxOpenFiles then
    match t.slots ⟨fd, small⟩ with
    | some file => .ok file
    | none => .error (.badDescriptor fd)
  else .error (.badDescriptor fd)

/-- `insert`: at the lowest free number. -/
def insert (t : FileTable) (file : File) : Except FileTableError (Nat × FileTable) :=
  match (List.finRange maxOpenFiles).find? fun fd => (t.slots fd).isNone with
  | some fd => .ok (fd, t.set fd (some file))
  | none => .error .noFreeDescriptor

def remove (t : FileTable) (fd : Nat) : Except FileTableError (File × FileTable) :=
  if small : fd < maxOpenFiles then
    match t.slots ⟨fd, small⟩ with
    | some file => .ok (file, t.set ⟨fd, small⟩ none)
    | none => .error (.badDescriptor fd)
  else .error (.badDescriptor fd)

/-- `replace`. The caller has to release what stood there. -/
def replace (t : FileTable) (fd : Nat) (file : File) : Option File × FileTable :=
  if small : fd < maxOpenFiles then (t.slots ⟨fd, small⟩, t.set ⟨fd, small⟩ (some file))
  else (none, t)

/-- `get_mut`, to advance the offset. -/
def advance (t : FileTable) (fd bytes : Nat) : FileTable :=
  if small : fd < maxOpenFiles then
    t.set ⟨fd, small⟩ ((t.slots ⟨fd, small⟩).map (File.advance bytes))
  else t

/-- What is open, in the order in which `drop` releases it. -/
def files (t : FileTable) : List File := (List.finRange maxOpenFiles).filterMap t.slots

variable {t : FileTable}

theorem coe_filterMap {α β : Type} (f : α → Option β) (l : List α) :
    ((l.filterMap f : List β) : Multiset β) = (l.map fun a => ((f a).toList : Multiset β)).sum := by
  induction l with
  | nil => rfl
  | cons a rest ih =>
    rw [List.map_cons, List.sum_cons, ← ih]
    cases entry : f a with
    | none => rw [List.filterMap_cons_none entry]; exact (zero_add _).symm
    | some b => rw [List.filterMap_cons_some entry]; rfl

theorem coe_files (t : FileTable) :
    (t.files : Multiset File) = ∑ fd, ((t.slots fd).toList : Multiset File) := by
  unfold files
  rw [coe_filterMap, Fin.sum_univ_def]

theorem coe_files_set (t : FileTable) (fd : Fin maxOpenFiles) (entry : Option File) :
    ((t.set fd entry).files : Multiset File) + ((t.slots fd).toList : Multiset File) =
      (t.files : Multiset File) + (entry.toList : Multiset File) := by
  rw [coe_files, coe_files]
  exact sum_update_add (fun entry : Option File => (entry.toList : Multiset File)) t.slots fd entry

theorem insert_ok (ok : t.insert file = .ok (fd, t')) :
    (t'.files : Multiset File) = file ::ₘ (t.files : Multiset File) := by
  unfold insert at ok
  split at ok
  · rename_i slot found
    have free := List.find?_some found
    obtain ⟨-, rfl⟩ := Prod.mk.inj (Except.ok.inj ok)
    have set := coe_files_set t slot (some file)
    rw [Option.isNone_iff_eq_none.mp free] at set
    rw [← Multiset.singleton_add, add_comm]
    exact (add_zero _).symm.trans set
  · cases ok

theorem remove_ok (ok : t.remove fd = .ok (file, t')) :
    (t.files : Multiset File) = file ::ₘ (t'.files : Multiset File) := by
  unfold remove at ok
  split at ok
  · rename_i small
    split at ok
    · rename_i old entry
      obtain ⟨rfl, rfl⟩ := Prod.mk.inj (Except.ok.inj ok)
      have set := coe_files_set t ⟨fd, small⟩ none
      rw [entry] at set
      rw [← Multiset.singleton_add, add_comm]
      exact (add_zero _).symm.trans set.symm
    · cases ok
  · cases ok

theorem get_ok (ok : t.get fd = .ok file) :
    ∃ small : fd < maxOpenFiles, t.slots ⟨fd, small⟩ = some file := by
  unfold get at ok
  split at ok
  · rename_i small
    split at ok
    · rename_i old entry
      exact ⟨small, Except.ok.inj ok ▸ entry⟩
    · cases ok
  · cases ok

theorem mem_files (ok : t.get fd = .ok file) : file ∈ t.files := by
  obtain ⟨small, entry⟩ := get_ok ok
  exact List.mem_filterMap.mpr ⟨_, List.mem_finRange _, entry⟩

theorem replace_ok {old : File} (file : File) (ok : t.get fd = .ok old) :
    (t.replace fd file).1 = some old ∧ old ::ₘ ((t.replace fd file).2.files : Multiset File) =
      file ::ₘ (t.files : Multiset File) := by
  obtain ⟨small, entry⟩ := get_ok ok
  have set := coe_files_set t ⟨fd, small⟩ (some file)
  rw [entry] at set
  unfold replace
  rw [dif_pos small]
  refine ⟨entry, ?_⟩
  rw [← Multiset.singleton_add, ← Multiset.singleton_add, add_comm, add_comm {file} (Multiset.ofList _)]
  exact set

theorem count_advance (t : FileTable) (fd bytes : Nat) (other : file.inode = none) :
    ((t.advance fd bytes).files : Multiset File).count file = (t.files : Multiset File).count file := by
  unfold advance
  split
  · rename_i small
    have set := congrArg (Multiset.count file)
      (coe_files_set t ⟨fd, small⟩ ((t.slots ⟨fd, small⟩).map (File.advance bytes)))
    rw [Multiset.count_add, Multiset.count_add] at set
    have same : ((((t.slots ⟨fd, small⟩).map (File.advance bytes)).toList : List File) :
        Multiset File).count file = (((t.slots ⟨fd, small⟩).toList : List File) :
          Multiset File).count file := by
      cases entry : t.slots ⟨fd, small⟩ with
      | none => rfl
      | some old =>
        cases old with
        | regular inode offset writable =>
          have ne : ∀ at', file ≠ .regular inode at' writable := by
            rintro at' rfl
            cases other
          show Multiset.count file {.regular inode _ writable} = Multiset.count file {_}
          rw [Multiset.count_singleton, Multiset.count_singleton, if_neg (ne _), if_neg (ne _)]
        | _ => rfl
    omega
  · rfl

end FileTable

end Zaytos.Kernel
