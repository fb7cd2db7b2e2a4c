import Zaytos.Ext2.Writer
import Zaytos.Kernel.Syscall

set_option autoImplicit false

/-! The calls on files that read or write the root image: `open` and `getdents64`. What they
find in user memory is given with them: the path, or whether the buffer may be written. -/
namespace Zaytos.Kernel

abbrev oAccmode : Nat := 0o3

abbrev oRdonly : Nat := 0o0

abbrev oWronly : Nat := 0o1

abbrev oCreat : Nat := 0o100

abbrev oTrunc : Nat := 0o1000

abbrev oAppend : Nat := 0o2000

abbrev oWriteIntent : Nat := oCreat ||| oTrunc ||| oAppend

abbrev dirent64HeaderLen : Nat := 19

abbrev dirent64Align : Nat := 8

abbrev dirent64MaxRecord : Nat := 280

abbrev dtUnknown : UInt8 := 0

abbrev dtDir : UInt8 := 4

abbrev dtReg : UInt8 := 8

def errnoForAlloc : Fs.AllocError → Errno
  | .full | .noRoomInDirectory => .enospc
  | .nameTaken => .eexist
  | .badName => .einval
  | .noSuchEntry => .enoent
  | .notARegularFile _ => .eisdir
  | .notADirectory _ => .enotdir
  | .directoryNotEmpty _ => .enotempty
  | _ => .eio

def direntTypeFor (fileType : UInt8) : UInt8 :=
  if fileType = Fs.direntTypeRegular then dtReg
  else if fileType = Fs.direntTypeDirectory then dtDir
  else dtUnknown

structure Dirent64 where
  ino : Nat
  off : Nat
  kind : UInt8
  name : List UInt8

/-- `dirent64_record_len`: with the zero behind the name, a multiple of eight. -/
def dirent64RecordLen (nameLen : Nat) : Nat :=
  (dirent64HeaderLen + nameLen + 1 + (dirent64Align - 1)) / dirent64Align * dirent64Align

/-- `dirent64_record`, into a buffer of `room` bytes. -/
def dirent64Record (entry : Dirent64) (room : Nat) : Option (List UInt8) :=
  let reclen := dirent64RecordLen entry.name.length
  let nameEnd := dirent64HeaderLen + entry.name.length
  if room < nameEnd + 1 ∨ room < reclen then none
  else
    some (leBytes 8 entry.ino ++ leBytes 8 entry.off ++ leBytes 2 reclen ++ [entry.kind] ++
      entry.name ++ List.replicate (reclen - nameEnd) 0)

namespace File

/-- `seek_to`: not behind the end. -/
def seekTo (position : Nat) : File → File
  | .regular inode _ writable => .regular inode (min position inode.size) writable
  | file => file

end File

/-- `get_mut`, to put the offset at `position`. -/
def FileTable.seekTo (t : FileTable) (fd position : Nat) : FileTable :=
  if small : fd < maxOpenFiles then
    t.set ⟨fd, small⟩ ((t.slots ⟨fd, small⟩).map (File.seekTo position))
  else t

structure FileState where
  root : Option Bytes
  files : FileTable

abbrev FileCall (α : Type) := Exec FileState Errno α

namespace FileState

/-- `root_image`: empty before there is a copy. -/
def rootImage (s : FileState) : Bytes := s.root.getD ⟨0, fun _ => 0⟩

end FileState

namespace FileCall

def rootFilesystem : FileCall Fs.Ext2 :=
  Exec.read fun s => (Fs.Ext2.parse s.rootImage).mapErr errnoForExt2

def withRootImageMut {α : Type} (write : Fs.Writer α) (noCopy : Errno)
    (refused : Fs.AllocError → Errno) : FileCall α := fun s =>
  match s.root with
  | none => .err noCopy s
  | some image =>
    match write image with
    | .fault => .fault
    | .err e image => .err (refused e) { s with root := some image }
    | .ok a image => .ok a { s with root := some image }

/-- `insert` into the caller's table. -/
def insert (file : File) : FileCall Nat := fun s =>
  match s.files.insert file with
  | .ok (fd, files) => .ok fd { s with files }
  | .error error => .err error.errno s

/-- `seek_to` on one of the caller's files. -/
def seek (fd position : Nat) : FileCall Unit := fun s =>
  .ok () { s with files := s.files.seekTo fd position }

section Open

/-- `split_parent_and_name`: at the last `/`. -/
def splitParentAndName (path : List UInt8) : Result Errno (List UInt8 × List UInt8) :=
  let name := (path.reverse.takeWhile (· ≠ Fs.pathSeparator)).reverse
  if Fs.pathSeparator ∉ path then .err .einval
  else if name = [] then .err .einval
  else
    let parent := path.take (path.length - name.length - 1)
    .ok (if parent = [] then [Fs.pathSeparator] else parent, name)

def createAndLookup (path : List UInt8) : FileCall Fs.Inode := do
  let (parent, name) ← Exec.read fun _ => splitParentAndName path
  let layout := (← rootFilesystem).layout
  let fs ← rootFilesystem
  let dir ← Exec.read fun _ => (fs.lookup parent).mapErr errnoForExt2
  Exec.rejectIf (!dir.isDirectory) .enotdir
  let _ ← withRootImageMut (Fs.createFile layout dir.number name) .eio errnoForAlloc
  let fs ← rootFilesystem
  Exec.read fun _ => (fs.lookup path).mapErr errnoForExt2

def writeForm (flags : Nat) : Bool :=
  flags &&& oAccmode = oWronly ∧ flags &&& oWriteIntent &&& (oTrunc ||| oAppend) = oTrunc

def lookupOrCreate (path : List UInt8) (flags : Nat) : FileCall Fs.Inode := do
  let fs ← rootFilesystem
  match fs.lookup path with
  | .fault => fun _ => .fault
  | .ok inode => pure inode
  | .err .notFound =>
    if writeForm flags ∧ flags &&& oCreat ≠ 0 then createAndLookup path else Exec.fail .enoent
  | .err e => Exec.fail (errnoForExt2 e)

def truncateForWrite (inode : Fs.Inode) : FileCall Unit := do
  Exec.rejectIf (!inode.isRegularFile) .erofs
  let layout := (← rootFilesystem).layout
  withRootImageMut (Fs.truncateTo layout inode.number 0) .erofs fun _ => .eio

def sysOpen (path : Except Errno (List UInt8)) (flags : Nat) : FileCall Nat := do
  Exec.rejectIf (!writeForm flags ∧
    (flags &&& oAccmode ≠ oRdonly ∨ flags &&& oWriteIntent ≠ 0)) .erofs
  match path with
  | .error errno => Exec.fail errno
  | .ok path =>
    let inode ← lookupOrCreate path flags
    if writeForm flags then truncateForWrite inode
    insert (.regular inode 0 (writeForm flags))

end Open

section Getdents

/-- What the loop of `sys_getdents64` has so far: the records it has written, and the position
behind the last of them. -/
structure Filled where
  written : List UInt8
  nextFrom : Nat
  deriving DecidableEq

/-- The loop of `sys_getdents64` over the entries that are left. What the records are copied to
has been checked before, so `copy_to_user` copies all of them. -/
def fillRecords (fs : Fs.Ext2) (count : Nat) : Nat → Fs.DirEntries → Filled → Result Errno Filled
  | 0, _, _ => .fault
  | fuel + 1, walk, filled =>
    match walk.next fs with
    | none => .fault
    | some (none, _) => .ok filled
    | some (some (.error e), _) => .err (errnoForExt2 e)
    | some (some (.ok entry), walk) =>
      if count < filled.written.length + dirent64RecordLen entry.name.length then .ok filled
      else
        match dirent64Record ⟨entry.inode, entry.nextOffset, direntTypeFor entry.fileType,
            entry.name⟩ dirent64MaxRecord with
        | none => .err .eio
        | some record =>
          fillRecords fs count fuel walk ⟨filled.written ++ record, entry.nextOffset⟩

/-- Whether a walk from `start` still has something to hand out. -/
def somethingLeft (fs : Fs.Ext2) (inode : Fs.Inode) (start : Nat) : Result Errno Bool :=
  match fs.directoryEntriesFrom inode start with
  | .fault => .fault
  | .err _ => .ok false
  | .ok walk =>
    match walk.next fs with
    | none => .fault
    | some (item, _) => .ok item.isSome

def openedAt (files : FileTable) (fd : Nat) : Result Errno (Fs.Inode × Nat) :=
  match files.get fd with
  | .error error => .err error.errno
  | .ok file =>
    match file.inode with
    | none => .err .enotdir
    | some inode => .ok (inode, file.offset)

/-- `sys_getdents64`, with a buffer of `count` bytes: the bytes it has written there. -/
def sysGetdents64 (fd count : Nat) (valid : Bool) : FileCall (List UInt8) := do
  let (inode, start) ← Exec.read fun s => openedAt s.files fd
  Exec.rejectIf (!inode.isDirectory) .enotdir
  Exec.rejectIf (!valid) .efault
  let fs ← rootFilesystem
  let walk ← Exec.read fun _ => (fs.directoryEntriesFrom inode start).mapErr errnoForExt2
  let filled ← Exec.read fun _ => fillRecords fs count (walk.rounds fs) walk ⟨[], start⟩
  if filled.written = [] ∧ filled.nextFrom = start then
    Exec.rejectIf ((← Exec.read fun _ => somethingLeft fs inode start) = true) .einval
    pure []
  else
    seek fd filled.nextFrom
    pure filled.written

end Getdents

end FileCall

end Zaytos.Kernel
