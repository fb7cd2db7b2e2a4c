import Zaytos.Ext2.AppendReads
import Zaytos.Kernel.Getdents
import Zaytos.Kernel.Machine

set_option autoImplicit false

/-! Reading a regular file from front to back and from wherever `lseek` puts the offset. -/
namespace Zaytos.Kernel

open Fs (Ext2 Inode)

/-- Why `lseek` fails. -/
inductive SeekError where
  | einval
  | espipe
  | ebadf
  deriving DecidableEq, Repr

abbrev seekSet : Nat := 0

/-- `sys_lseek`: the new offset. -/
def System.sysLseek (k : System) (slot : Slot) (fd offset whence : Nat) :
    Except SeekError Nat × System :=
  if whence ≠ seekSet then (.error .einval, k)
  else
    match (k.files slot).get fd with
    | .error _ => (.error .ebadf, k)
    | .ok file =>
      if file.isTerminal then (.error .espipe, k)
      else (.ok (file.seekTo offset).offset, k.setFiles slot ((k.files slot).seekTo fd offset))

/-- What a program does with a file it has opened. Whether the buffer of a `read` may be written is
given with it. -/
inductive FileOp where
  | read (count : Nat) (valid : Bool)
  | seek (position : Nat)

def fileStep (slot : Slot) (fd : Nat) (k : System) : FileOp → Option System
  | .read count valid => some (k.sysRead slot fd count valid).2
  | .seek position => some (k.sysLseek slot fd position seekSet).2

/-! The contents of a file. -/

section Contents

def BlocksReadable (fs : Ext2) (inode : Inode) : Prop :=
  ∀ index < fs.blockSpan inode, ∃ bytes, fs.fileBlock inode index = .ok bytes

def blockList (fs : Ext2) (inode : Inode) (index : Nat) : List UInt8 :=
  match fs.fileBlock inode index with
  | .ok bytes => bytes.toList
  | _ => []

def contents (fs : Ext2) (inode : Inode) : List UInt8 :=
  (List.range (fs.blockSpan inode)).flatMap (blockList fs inode)

def byteOf (fs : Ext2) (inode : Inode) (pos : Nat) : UInt8 :=
  match fs.fileBlock inode (pos / fs.blockSize) with
  | .ok bytes => bytes.get (pos % fs.blockSize)
  | _ => 0

variable {fs : Ext2} {inode : Inode} {index : Nat} {bytes : Bytes}

theorem blockSize_pos (accepted : fs.Valid) : 0 < fs.blockSize := by
  apply Exists.elim accepted.wf.blockSize_pow
  intro shift size
  have same : fs.blockSize = 1024 * 2 ^ shift := size.2
  rw [same]
  positivity

/-- A block that can be read has a number that the processor's word has room for, and the length
that the size leaves it. -/
theorem fileBlock_bounds (accepted : fs.Valid) (slots : inode.blocks.length = 15)
    (read : fs.fileBlock inode index = .ok bytes) : index < 2 ^ 32 ∧
      index * fs.blockSize < inode.size ∧
      bytes.len = min (inode.size - index * fs.blockSize) fs.blockSize := by
  have sizeLe : fs.blockSize ≤ 65536 := accepted.wf.blockSize_le
  have small : index < 2 ^ 32 := by
    by_contra large
    have beyond := @Fs.blockNumberOf_beyond fs inode index (by omega) (by omega)
    rw [Ext2.fileBlock] at read
    rw [beyond] at read
    cases sum : mul64 index fs.blockSize with
    | none =>
      rw [sum] at read
      cases read
    | some offset =>
      rw [sum] at read
      simp only [Result.lift_some, Result.ok_bind, Result.rejectIf_bind, Result.err_bind] at read
      split at read
      · cases read
      · split at read <;> cases read
  have sat := Fs.fileBlock_sat accepted slots small
  rw [read] at sat
  exact ⟨small, sat⟩

theorem byteOf_block (positive : 0 < fs.blockSize) (read : fs.fileBlock inode index = .ok bytes)
    {k : Nat} (inside : k < fs.blockSize) :
    byteOf fs inode (index * fs.blockSize + k) = bytes.get k := by
  have quotient : (index * fs.blockSize + k) / fs.blockSize = index := by
    rw [mul_comm, Nat.mul_add_div positive, Nat.div_eq_of_lt inside, add_zero]
  have remainder : (index * fs.blockSize + k) % fs.blockSize = k := by
    rw [mul_comm, Nat.mul_add_mod, Nat.mod_eq_of_lt inside]
  rw [byteOf, quotient, remainder, read]

theorem blocks_eq (accepted : fs.Valid) (slots : inode.blocks.length = 15)
    (readable : BlocksReadable fs inode) (n : Nat) (few : n ≤ fs.blockSpan inode) :
    (List.range n).flatMap (blockList fs inode) =
      (List.range (min inode.size (n * fs.blockSize))).map (byteOf fs inode) := by
  have positive := blockSize_pos accepted
  induction n with
  | zero => simp
  | succ n ih =>
    apply Exists.elim (readable n few)
    intro bytes read
    have bounds := fileBlock_bounds accepted slots read
    have list : blockList fs inode n =
        (List.range bytes.len).map fun k => byteOf fs inode (n * fs.blockSize + k) := by
      rw [blockList, read]
      apply List.map_congr_left
      intro k mem
      have inside := List.mem_range.mp mem
      rw [byteOf_block positive read (by omega), zero_add]
    have whole : min inode.size ((n + 1) * fs.blockSize) =
        min inode.size (n * fs.blockSize) + bytes.len := by
      rw [Nat.succ_mul]
      omega
    have start : min inode.size (n * fs.blockSize) = n * fs.blockSize := by omega
    rw [List.range_succ, List.flatMap_append, ih (by omega), List.flatMap_singleton, list, whole,
      List.range_add, List.map_append, List.map_map, start]
    rfl

theorem contents_eq (accepted : fs.Valid) (slots : inode.blocks.length = 15)
    (readable : BlocksReadable fs inode) :
    contents fs inode = (List.range inode.size).map (byteOf fs inode) := by
  have positive := blockSize_pos accepted
  have covers : inode.size ≤ fs.blockSpan inode * fs.blockSize :=
    (divCeil_le_iff positive).mp (le_rfl)
  rw [contents, blocks_eq accepted slots readable _ (le_rfl), min_eq_left covers]

end Contents

/-! One call. -/

section Call

variable {fs : Ext2} {inode : Inode} {offset want : Nat}

theorem div_lt_blockSpan (positive : 0 < fs.blockSize) {pos : Nat} (inside : pos < inode.size) :
    pos / fs.blockSize < fs.blockSpan inode := by
  apply (lt_divCeil_iff positive).mpr
  exact lt_of_le_of_lt (Nat.div_mul_le_self _ _) inside

theorem readBlocks_sat (accepted : fs.Valid) (slots : inode.blocks.length = 15)
    (inside : offset + want ≤ inode.size) (rounds : Nat) (out : List UInt8)
    (has : out = (List.range out.length).map fun k => byteOf fs inode (offset + k))
    (within : out.length ≤ want) (enough : want ≤ out.length + rounds) :
    (System.readBlocks fs inode offset want rounds out).Sat
      (fun data => data = (List.range want).map fun k => byteOf fs inode (offset + k))
      (fun _ => ¬ BlocksReadable fs inode) := by
  have positive := blockSize_pos accepted
  induction rounds generalizing out with
  | zero =>
    rw [System.readBlocks, show want = out.length by omega]
    exact has
  | succ rounds ih =>
    rw [System.readBlocks]
    by_cases more : out.length < want
    · rw [if_pos more]
      dsimp only
      have before : offset + out.length < inode.size := by omega
      have block := div_lt_blockSpan positive before
      have place := Nat.div_add_mod (offset + out.length) fs.blockSize
      have rest := Nat.mod_lt (offset + out.length) positive
      generalize (offset + out.length) / fs.blockSize = index at *
      generalize (offset + out.length) % fs.blockSize = start at *
      rw [mul_comm] at place
      by_cases large : 2 ^ 32 ≤ index
      · rw [if_pos large]
        intro readable
        apply Exists.elim (readable index block)
        intro bytes read
        exact absurd (fileBlock_bounds accepted slots read).1 (not_lt.mpr large)
      rw [if_neg large]
      cases read : fs.fileBlock inode index with
      | fault =>
        have sat := Fs.fileBlock_sat accepted slots (not_le.mp large)
        rw [read] at sat
        exact sat
      | err e =>
        intro readable
        apply Exists.elim (readable index block)
        intro bytes other
        rw [read] at other
        cases other
      | ok bytes =>
        have bounds := fileBlock_bounds accepted slots read
        dsimp only
        rw [if_neg (by omega)]
        generalize size : min (want - out.length) (bytes.len - start) = chunk
        have piece : bytes.view start chunk = (List.range chunk).map fun k =>
            byteOf fs inode (offset + (out.length + k)) := by
          apply List.map_congr_left
          intro k mem
          have less := List.mem_range.mp mem
          rw [← byteOf_block positive read (by omega), ← add_assoc, ← add_assoc,
            place]
        have longer : (out ++ bytes.view start chunk).length = out.length + chunk := by
          rw [List.length_append, Bytes.length_view]
        apply ih
        · rw [longer, List.range_add, List.map_append, List.map_map, ← has, piece]
          rfl
        · rw [longer]
          omega
        · rw [longer]
          omega
    · rw [if_neg more, show want = out.length by omega]
      exact has

end Call

/-! The descriptor. -/

section Descriptor

variable {k : System} {slot : Slot} {fd offset count : Nat} {inode : Inode} {writable valid : Bool}
  {t : FileTable}

theorem get_advance {bytes : Nat} (opened : t.get fd = .ok (.regular inode offset writable))
    (inside : offset + bytes ≤ inode.size) (small : inode.size < 2 ^ 64) :
    (t.advance fd bytes).get fd = .ok (.regular inode (offset + bytes) writable) := by
  apply Exists.elim (FileTable.get_ok opened)
  intro open' entry
  have place : min (min (2 ^ 64 - 1) (offset + bytes)) inode.size = offset + bytes := by omega
  rw [FileTable.advance, dif_pos open', entry, FileTable.get, dif_pos open']
  simp only [FileTable.set, Function.update_self, Option.map_some, File.advance, place]

theorem processes_of_opened
    (opened : (k.files slot).get fd = .ok (.regular inode offset writable)) :
    k.processes slot ≠ [] := by
  intro none
  apply Exists.elim (FileTable.get_ok opened)
  intro open' entry
  rw [System.files, none] at entry
  simp only [FileTable.new] at entry
  split at entry
  · cases entry
  · split at entry <;> cases entry

theorem files_setFiles (runs : k.processes slot ≠ []) (t : FileTable) :
    (k.setFiles slot t).files slot = t := by
  cases same : k.processes slot with
  | nil => exact absurd same runs
  | cons p rest =>
    simp only [System.files, System.setFiles, System.modifyTop, Function.update_self, same,
      System.onTop]

theorem sysRead_regular (opened : (k.files slot).get fd = .ok (.regular inode offset writable)) :
    k.sysRead slot fd count valid = k.readRegular slot fd inode offset writable count valid := by
  rw [System.sysRead, opened]
  rfl

/-- How a `read` of a regular file ends: at the end of the file, with an error and nothing changed,
or with the bytes behind the offset and the offset behind them. -/
theorem readRegular_ends {fs : Ext2} (parsed : Ext2.parse k.root = .ok fs)
    (slots : inode.blocks.length = 15) (kind : inode.isDirectory = false)
    (inside : offset ≤ inode.size) :
    (min count (inode.size - offset) = 0 ∧
      k.readRegular slot fd inode offset false count valid = (.done (.value 0), k)) ∨
    (∃ errno, k.readRegular slot fd inode offset false count valid = (.done (.error errno), k) ∧
      ¬ (valid = true ∧ BlocksReadable fs inode)) ∨
    (0 < min count (inode.size - offset) ∧
      k.readRegular slot fd inode offset false count valid =
        (.done (.bytes ((List.range (min count (inode.size - offset))).map fun i =>
          byteOf fs inode (offset + i))),
        k.setFiles slot ((k.files slot).advance fd (min count (inode.size - offset))))) := by
  rw [System.readRegular, if_neg (by decide), kind, if_neg (by decide)]
  dsimp only
  generalize size : min count (inode.size - offset) = want
  by_cases none : want = 0
  · rw [if_pos none]
    exact Or.inl ⟨none, rfl⟩
  rw [if_neg none]
  right
  by_cases refused : valid = false
  · rw [if_pos refused]
    exact Or.inl ⟨_, rfl, fun both => Bool.false_ne_true (refused.symm.trans both.1)⟩
  rw [if_neg refused, parsed]
  dsimp only
  have sat := @readBlocks_sat fs inode offset want (Fs.parse_valid parsed).1 slots (by omega) want
    [] rfl (Nat.zero_le _) (by simp)
  cases run : System.readBlocks fs inode offset want want [] with
  | fault =>
    rw [run] at sat
    exact sat.elim
  | err errno =>
    rw [run] at sat
    exact Or.inl ⟨errno, rfl, fun both => sat both.2⟩
  | ok data =>
    rw [run] at sat
    have data_eq : data = (List.range want).map fun i => byteOf fs inode (offset + i) := sat
    have length : data.length = want := by
      rw [data_eq, List.length_map, List.length_range]
    right
    apply And.intro (Nat.pos_of_ne_zero none)
    dsimp only
    rw [length, data_eq]

end Descriptor

/-! Runs. -/

section Inodes

variable {image : Bytes} {fs : Ext2} {ino : Nat} {inode : Inode}

theorem inode_slots (parsed : Ext2.parse image = .ok fs) (found : fs.inode ino = .ok inode) :
    inode.blocks.length = 15 := by
  rw [((Fs.inode_eq_ok (Fs.parse_valid parsed).1).mp found).2]
  apply Fs.length_inodeOf_blocks

theorem inode_size_lt (parsed : Ext2.parse image = .ok fs) (found : fs.inode ino = .ok inode) :
    inode.size < 2 ^ 64 := by
  rw [((Fs.inode_eq_ok (Fs.parse_valid parsed).1).mp found).2]
  have low := fs.image.u32_lt (fs.layout.inodePos fs.image ino + 4)
  have high := fs.image.u32_lt (fs.layout.inodePos fs.image ino + 108)
  simp only [Fs.inodeOf, Fs.joinSize]
  split <;> omega

theorem isDirectory_of_regular (regular : inode.isRegularFile = true) :
    inode.isDirectory = false := by
  simp only [Inode.isRegularFile, beq_iff_eq] at regular
  simp [Inode.isDirectory, regular, Fs.modeRegular, Fs.modeDirectory]

end Inodes

section Run

variable {image : Bytes} {fs : Ext2} {ino fd offset : Nat} {inode : Inode} {k k' : System}
  {slot : Slot}

def Streams (image : Bytes) (slot : Slot) (fd : Nat) (inode : Inode) (k : System) : Prop :=
  k.root = image ∧
    ∃ offset ≤ inode.size, (k.files slot).get fd = .ok (.regular inode offset false)

/-- What a `read` returns that has copied the bytes. -/
def copied (data : List UInt8) : Outcome :=
  if data = [] then .done (.value 0) else .done (.bytes data)

structure ReadsFrom (fs : Ext2) (slot : Slot) (fd : Nat) (inode : Inode) (k : System)
    (offset : Nat) : Prop where
  opened : (k.files slot).get fd = .ok (.regular inode offset false)
  inside : offset ≤ inode.size
  /-- `lseek` stops at the end of the file. -/
  seeks : ∀ position, ∃ after, k.sysLseek slot fd position seekSet =
      (.ok (min position inode.size), after) ∧
    (after.files slot).get fd = .ok (.regular inode (min position inode.size) false)
  /-- A `read` gives the bytes behind the offset, as many as it is asked for and the file has. -/
  reads : BlocksReadable fs inode → ∀ count, ∃ after, k.sysRead slot fd count true =
      (copied (((contents fs inode).drop offset).take count), after) ∧
    (((contents fs inode).drop offset).take count).length = min count (inode.size - offset) ∧
    (after.files slot).get fd =
      .ok (.regular inode (offset + min count (inode.size - offset)) false)
  /-- A `read` that fails, and one that copies nothing, changes nothing. -/
  fails : ∀ count valid, (k.sysRead slot fd count valid).1 ≠ .panics ∧
    ∀ errno, (k.sysRead slot fd count valid).1 = .done (.error errno) →
      (k.sysRead slot fd count valid).2 = k

theorem sysLseek_regular {position : Nat} {writable : Bool}
    (opened : (k.files slot).get fd = .ok (.regular inode offset writable)) :
    k.sysLseek slot fd position seekSet =
      (.ok (min position inode.size), k.setFiles slot ((k.files slot).seekTo fd position)) := by
  rw [System.sysLseek, if_neg (not_not_intro rfl), opened]
  rfl

theorem contents_slice (parsed : Ext2.parse image = .ok fs) (found : fs.inode ino = .ok inode)
    (readable : BlocksReadable fs inode) (count : Nat) :
    ((contents fs inode).drop offset).take count =
      (List.range (min count (inode.size - offset))).map fun i => byteOf fs inode (offset + i) := by
  rw [contents_eq (Fs.parse_valid parsed).1 (inode_slots parsed found) readable]
  apply List.ext_getElem
  · simp
  · intro i small small'
    simp

theorem Streams.step {op : FileOp} (parsed : Ext2.parse image = .ok fs)
    (found : fs.inode ino = .ok inode) (regular : inode.isRegularFile = true)
    (streams : Streams image slot fd inode k) (next : fileStep slot fd k op = some k') :
    Streams image slot fd inode k' := by
  have root := streams.1
  apply Exists.elim streams.2
  intro offset here
  have runs := processes_of_opened here.2
  have small := inode_size_lt parsed found
  cases op with
  | seek position =>
    rw [fileStep, sysLseek_regular here.2] at next
    cases next
    refine ⟨root, min position inode.size, min_le_right _ _, ?_⟩
    rw [files_setFiles runs, FileCall.get_seekTo here.2]
  | read count valid =>
    rw [fileStep, sysRead_regular here.2] at next
    have ends := @readRegular_ends k slot fd offset count inode valid fs (root ▸ parsed)
      (inode_slots parsed found) (isDirectory_of_regular regular) here.1
    rcases ends with ⟨-, same⟩ | ⟨errno, same, -⟩ | ⟨-, same⟩
    · rw [same] at next
      cases next
      exact streams
    · rw [same] at next
      cases next
      exact streams
    · rw [same] at next
      cases next
      refine ⟨root, offset + min count (inode.size - offset), by omega, ?_⟩
      rw [files_setFiles runs, get_advance here.2 (by omega) small]

theorem Streams.readsFrom (parsed : Ext2.parse image = .ok fs)
    (found : fs.inode ino = .ok inode) (regular : inode.isRegularFile = true)
    (streams : Streams image slot fd inode k) :
    ∃ offset, ReadsFrom fs slot fd inode k offset := by
  have root := streams.1
  apply Exists.elim streams.2
  intro offset here
  have runs := processes_of_opened here.2
  have small := inode_size_lt parsed found
  have ends := fun count valid => @readRegular_ends k slot fd offset count inode valid fs
    (root ▸ parsed) (inode_slots parsed found) (isDirectory_of_regular regular) here.1
  refine ⟨offset, here.2, here.1, ?_, ?_, ?_⟩
  · intro position
    refine ⟨_, sysLseek_regular here.2, ?_⟩
    rw [files_setFiles runs, FileCall.get_seekTo here.2]
  · intro readable count
    rw [sysRead_regular here.2, contents_slice parsed found readable]
    rcases ends count true with ⟨zero, same⟩ | ⟨errno, same, not⟩ | ⟨positive, same⟩
    · refine ⟨k, ?_, by simp, ?_⟩
      · rw [same, zero]
        rfl
      · rw [zero, add_zero, here.2]
    · exact absurd ⟨rfl, readable⟩ not
    · refine ⟨k.setFiles slot ((k.files slot).advance fd (min count (inode.size - offset))), ?_,
        by simp, ?_⟩
      · rw [same, copied, if_neg (by simp only [List.map_eq_nil_iff, List.range_eq_nil]; omega)]
      · rw [files_setFiles runs, get_advance here.2 (by omega) small]
  · intro count valid
    rw [sysRead_regular here.2]
    rcases ends count valid with ⟨-, same⟩ | ⟨errno, same, -⟩ | ⟨-, same⟩
    · rw [same]
      exact ⟨nofun, nofun⟩
    · rw [same]
      exact ⟨nofun, fun _ _ => rfl⟩
    · rw [same]
      exact ⟨nofun, nofun⟩

/-- Whatever a program does with a regular file that it has opened for reading, what it reads are
the bytes of the file behind the offset. -/
theorem sysRead_streams (parsed : Ext2.parse k.root = .ok fs) (found : fs.inode ino = .ok inode)
    (regular : inode.isRegularFile = true)
    (opened : (k.files slot).get fd = .ok (.regular inode 0 false))
    (reach : Reachable (fileStep slot fd) k k') :
    ∃ offset, ReadsFrom fs slot fd inode k' offset := by
  apply Streams.readsFrom parsed found regular
  apply Reachable.invariant (P := Streams k.root slot fd inode) _ _ reach
  · exact ⟨rfl, 0, Nat.zero_le _, opened⟩
  · intro _ _ _ streams next
    exact streams.step parsed found regular next

end Run

def letterImage : Bytes := ((Fs.sparseImage 1).putU32 6440 8).putU16 8192 65

def System.withFile (image : Bytes) (inode : Inode) : System :=
  let k := System.init (.new 0) image false
  k.push 0 ⟨FileTable.new.set 3 (some (.regular inode 0 false)), .user, false, ⟨0, [], []⟩,
    .fromImageEnd 0⟩

/-- The letter is read, and the next `read` is behind it. -/
theorem sysRead_streams_letter : ∃ fs inode k' offset,
    Ext2.parse letterImage = .ok fs ∧ fs.inode 11 = .ok inode ∧ contents fs inode = [65] ∧
      (System.withFile letterImage inode).sysRead 0 3 10 true = (.done (.bytes [65]), k') ∧
      ReadsFrom fs 0 3 inode k' offset := by
  have facts : (Ext2.parse letterImage).any (fun fs => (fs.inode 11).any fun inode =>
      inode.isRegularFile && (fs.blockSpan inode == 1) && (contents fs inode == [65]) &&
        (fs.fileBlock inode 0).any fun _ => true) = true := by decide
  apply Exists.elim (Result.any_eq_true.mp facts)
  intro fs facts
  have parsed := facts.1
  apply Exists.elim (Result.any_eq_true.mp facts.2)
  intro inode facts
  have found := facts.1
  have facts := facts.2
  simp only [Bool.and_eq_true, beq_iff_eq] at facts
  have readable : BlocksReadable fs inode := by
    intro index less
    obtain rfl : index = 0 := by omega
    apply Exists.elim (Result.any_eq_true.mp facts.2)
    intro bytes read
    exact ⟨bytes, read.1⟩
  have streams := fun k' => @sysRead_streams fs 11 3 inode (.withFile letterImage inode) k' 0
    parsed found facts.1.1.1 rfl
  apply Exists.elim (streams _ .refl)
  intro offset first
  obtain rfl : offset = 0 := by
    have opened := first.opened
    cases opened
    rfl
  apply Exists.elim (first.reads readable 10)
  intro after read
  rw [facts.1.2] at read
  apply Exists.elim (streams after (.step (.read 10 true) .refl (by rw [fileStep, read.1])))
  intro offset second
  exact ⟨fs, inode, after, offset, parsed, found, facts.1.2, read.1, second⟩

end Zaytos.Kernel
