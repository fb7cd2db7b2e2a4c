import Zaytos.Ext2.ReaderSpec

set_option autoImplicit false

/-! The directory walk and the path lookup end on every accepted image.

One round of the loop in `next` either hands something out or moves the walk on by at least
eight bytes or to the next block; `budget` counts the rounds that are left and `itemsLeft`
the items. Both are read off the one lemma that lists the outcomes of a round. -/
namespace Zaytos.Fs

open Result (Sat)

/-- The record whose header stands at `pos`. -/
structure Record where
  inode : Nat
  recLen : Nat
  nameLen : Nat
  fileType : UInt8
  name : List UInt8
  deriving DecidableEq, Repr

def recordAt (d : Bytes) (pos : Nat) : Record where
  inode := d.u32 pos
  recLen := d.u16 (pos + 4)
  nameLen := (d.get (pos + 6)).toNat
  fileType := d.get (pos + 7)
  name := d.view (pos + 8) (d.get (pos + 6)).toNat

/-- The checks of `next` on a record, in its order: the error they end with, if any. -/
def Record.refusal (r : Record) (inodesCount remaining : Nat) : Option Ext2Error :=
  if ¬ direntAlignment ∣ r.recLen then some (.dirEntryMisaligned r.recLen)
  else if r.recLen < direntHeaderLen + r.nameLen then some (.dirEntryRecordTooSmall r.recLen r.nameLen)
  else if remaining < r.recLen then some (.dirEntryRecordPastBlock r.recLen remaining)
  else if r.inode ≠ 0 ∧ inodesCount < r.inode then some (.inodeOutOfRange r.inode)
  else none

theorem Record.refusal_eq_none {r : Record} {inodesCount remaining : Nat} :
    r.refusal inodesCount remaining = none ↔
      4 ∣ r.recLen ∧ 8 + r.nameLen ≤ r.recLen ∧ r.recLen ≤ remaining ∧
        r.inode ≤ inodesCount := by
  unfold refusal
  simp only [direntAlignment, direntHeaderLen]
  constructor
  · intro accepted
    split at accepted
    · cases accepted
    split at accepted
    · cases accepted
    split at accepted
    · cases accepted
    split at accepted
    · cases accepted
    rename_i aligned long fits known
    exact ⟨by omega, by omega, by omega, by omega⟩
  · rintro ⟨aligned, long, fits, known⟩
    rw [if_neg (by omega), if_neg (by omega), if_neg (by omega), if_neg (by omega)]

variable {bytes : Bytes} {walk : DirEntries} {i : Inode}

namespace DirEntries

theorem collectWithin_cases {fs : Ext2} {fuel : Nat} {walk : DirEntries}
    {items : List (Except Ext2Error DirEntry)}
    (run : collectWithin fs (fuel + 1) walk = some items) :
    (∃ after, walk.next fs = some (none, after) ∧ items = []) ∨
      ∃ item after rest, walk.next fs = some (some item, after) ∧
        collectWithin fs fuel after = some rest ∧ items = item :: rest := by
  unfold collectWithin at run
  cases found : walk.next fs with
  | none =>
    rw [found] at run
    cases run
  | some res =>
    obtain ⟨item, after⟩ := res
    rw [found] at run
    cases item with
    | none => exact .inl ⟨after, rfl, (Option.some.inj run).symm⟩
    | some item =>
      obtain ⟨rest, restEq, rfl⟩ := Option.map_eq_some_iff.mp run
      exact .inr ⟨item, after, rest, rfl, restEq, rfl⟩

/-- What a walk keeps: the inode it was made from, the number of blocks of its size, and a
loaded block that is the one `file_block` gives. -/
structure Ok (fs : Ext2) (walk : DirEntries) : Prop where
  slots : walk.inode.blocks.length = 15
  size_lt : walk.inode.size < 2 ^ 32
  count : walk.blockCount = divCeil walk.inode.size fs.blockSize
  index_lt : walk.blockIndex < 2 ^ 32
  offset_le : walk.offset ≤ fs.blockSize
  loaded : ∀ bytes, walk.block = some bytes →
    walk.blockIndex * fs.blockSize < walk.inode.size ∧
    bytes.len = min (walk.inode.size - walk.blockIndex * fs.blockSize) fs.blockSize

/-- More than the rounds a walk can still take: one for every byte of the block that is
left and one more for every block boundary. -/
def budget (fs : Ext2) (walk : DirEntries) : Nat :=
  if walk.finished then 0
  else (walk.blockCount - walk.blockIndex) * (fs.blockSize + 1) + (fs.blockSize - walk.offset) + 1

def bytesLeft (fs : Ext2) (walk : DirEntries) : Nat :=
  walk.inode.size - (walk.blockIndex * fs.blockSize + walk.offset)

/-- At least the items a walk can still hand out: every record has a header of eight bytes,
and a block that cannot be read is one item. -/
def itemsLeft (fs : Ext2) (walk : DirEntries) : Nat :=
  if walk.finished then 0
  else if walk.block.isSome then divCeil (walk.bytesLeft fs) 8
  else if walk.blockIndex < walk.blockCount then max 1 (divCeil (walk.bytesLeft fs) 8)
  else 0

/-- The walk `after` keeps the invariant, has fewer rounds left than `before`, and has given
up `items` of its items. -/
structure Progress (fs : Ext2) (before after : DirEntries) (items : Nat) : Prop where
  ok : after.Ok fs
  budget_lt : after.budget fs < before.budget fs
  itemsLeft_le : after.itemsLeft fs + items ≤ before.itemsLeft fs

def StepOk (fs : Ext2) (walk : DirEntries) : DirStep → Prop
  | .again after => Progress fs walk after 0
  | .item none _ => True
  | .item (some _) after => Progress fs walk after 1

/-- One round on the record at `offset`. -/
def recordStep (fs : Ext2) (walk : DirEntries) (bytes : Bytes) : DirStep :=
  let remaining := bytes.len - walk.offset
  let r := recordAt bytes walk.offset
  if remaining < direntHeaderLen then walk.stopWith (.dirEntryTruncated walk.blockIndex remaining)
  else
    match r.refusal fs.inodesCount remaining with
    | some e => walk.stopWith e
    | none =>
        let offset := walk.offset + r.recLen
        if r.inode = 0 then .again { walk with offset }
        else
          .item (some (.ok {
            inode := r.inode, fileType := r.fileType, name := r.name
            nextOffset := walk.blockIndex * fs.blockSize + offset })) { walk with offset }

section Accepted

variable {fs : Ext2} (valid : fs.Valid)
include valid

theorem stepRecord_eq (ok : walk.Ok fs) (loaded : walk.block = some bytes) :
    walk.stepRecord fs bytes = some (walk.recordStep fs bytes) := by
  have sizeLe : fs.blockSize ≤ 65536 := valid.wf.blockSize_le
  have sizeLt := ok.size_lt
  obtain ⟨before, length⟩ := ok.loaded bytes loaded
  unfold stepRecord recordStep
  by_cases short : bytes.len - walk.offset < direntHeaderLen
  · rw [if_pos short, if_pos short]
    rfl
  have enough : 8 ≤ bytes.len - walk.offset := Nat.le_of_not_lt short
  have header : walk.offset + direntHeaderLen ≤ bytes.len := by
    simp only [direntHeaderLen]
    omega
  rw [if_neg short, if_neg short, Bytes.slice_of_le (by omega) header]
  simp only [Option.bind_eq_bind, Option.bind_some, Nat.add_sub_cancel_left]
  rw [Bytes.readU32_of_le (show 0 + 4 ≤ 8 by omega), Bytes.u32_shift, Option.bind_some,
    Bytes.readU16_of_le (show 4 + 2 ≤ 8 by omega), Bytes.u16_shift, Option.bind_some,
    Bytes.readU8_of_lt (show 6 < 8 by omega), Option.bind_some,
    Bytes.readU8_of_lt (show 7 < 8 by omega), Option.bind_some]
  simp only [add_zero, Record.refusal]
  let r := recordAt bytes walk.offset
  by_cases misaligned : ¬ direntAlignment ∣ r.recLen
  · rw [if_pos misaligned]
    exact (if_pos misaligned).trans rfl
  rw [if_neg misaligned]
  refine (if_neg misaligned).trans ?_
  by_cases small : r.recLen < direntHeaderLen + r.nameLen
  · rw [if_pos small]
    exact (if_pos small).trans rfl
  rw [if_neg small]
  refine (if_neg small).trans ?_
  by_cases past : bytes.len - walk.offset < r.recLen
  · rw [if_pos past]
    exact (if_pos past).trans rfl
  rw [if_neg past]
  refine (if_neg past).trans ?_
  by_cases unknown : r.inode ≠ 0 ∧ fs.inodesCount < r.inode
  · rw [if_pos unknown]
    exact (if_pos unknown).trans rfl
  rw [if_neg unknown]
  refine (if_neg unknown).trans ?_
  have name : walk.offset + direntHeaderLen + (bytes.get (walk.offset + 6)).toNat ≤ bytes.len := by
    have long : direntHeaderLen + r.nameLen ≤ r.recLen := Nat.le_of_not_lt small
    have nameLen : r.nameLen = (bytes.get (walk.offset + 6)).toNat := rfl
    omega
  rw [Bytes.slice_of_le (by omega) name, Option.bind_some]
  by_cases free : r.inode = 0
  · rw [if_pos free]
    exact (if_pos free).trans rfl
  rw [if_neg free]
  refine (if_neg free).trans ?_
  have fits : walk.offset + bytes.u16 (walk.offset + 4) ≤ bytes.len := by
    have recLen : r.recLen = bytes.u16 (walk.offset + 4) := rfl
    omega
  rw [mul64_of_lt (by omega), Option.bind_some, add64_of_lt (by omega), Option.bind_some]
  simp [Bytes.toList, Bytes.view, recordAt]

omit valid in
theorem Ok.finish (ok : walk.Ok fs) : ({ walk with finished := true } : DirEntries).Ok fs :=
  ⟨ok.slots, ok.size_lt, ok.count, ok.index_lt, ok.offset_le, ok.loaded⟩

omit valid in
theorem progress_finish (ok : walk.Ok fs) (running : walk.finished = false)
    (item : 1 ≤ walk.itemsLeft fs) : Progress fs walk { walk with finished := true } 1 where
  ok := ok.finish
  budget_lt := by simp [budget, running]
  itemsLeft_le := by simpa [itemsLeft] using item

omit valid in
theorem progress_record {recLen : Nat} (ok : walk.Ok fs)
    (running : walk.finished = false) (loaded : walk.block = some bytes) (long : 8 ≤ recLen)
    (fits : recLen ≤ bytes.len - walk.offset) :
    Progress fs walk { walk with offset := walk.offset + recLen } 1 := by
  obtain ⟨before, length⟩ := ok.loaded bytes loaded
  have room : walk.offset + recLen ≤ bytes.len := by omega
  refine ⟨⟨ok.slots, ok.size_lt, ok.count, ok.index_lt, ?_, ok.loaded⟩, ?_, ?_⟩
  · show walk.offset + recLen ≤ fs.blockSize
    omega
  · simp only [budget, running, Bool.false_eq_true, ↓reduceIte]
    omega
  · simp only [itemsLeft, running, loaded, Bool.false_eq_true, ↓reduceIte, Option.isSome_some,
      bytesLeft, divCeil]
    omega

omit valid in
theorem recordStep_ok (ok : walk.Ok fs)
    (running : walk.finished = false) (loaded : walk.block = some bytes)
    (inside : walk.offset < bytes.len) : StepOk fs walk (walk.recordStep fs bytes) := by
  obtain ⟨before, length⟩ := ok.loaded bytes loaded
  have item : 1 ≤ walk.itemsLeft fs := by
    simp only [itemsLeft, running, loaded, Bool.false_eq_true, ↓reduceIte, Option.isSome_some,
      bytesLeft, divCeil]
    omega
  have stop : ∀ e, StepOk fs walk (walk.stopWith e) := fun _ => progress_finish ok running item
  unfold recordStep
  dsimp only
  split
  · exact stop _
  split
  · exact stop _
  rename_i accepted
  obtain ⟨-, long, fits, -⟩ := Record.refusal_eq_none.mp accepted
  have passed := progress_record ok running loaded (by omega) fits
  split
  · exact ⟨passed.ok, passed.budget_lt, by have := passed.itemsLeft_le; omega⟩
  · exact passed

theorem stepBlock_ok (ok : walk.Ok fs)
    (running : walk.finished = false) (loaded : walk.block = some bytes) :
    ∃ r, step.stepBlock fs walk bytes = some r ∧ StepOk fs walk r := by
  have sizeGe : 1024 ≤ fs.blockSize := valid.wf.blockSize_ge
  have sizePos : 0 < fs.blockSize := by omega
  obtain ⟨before, length⟩ := ok.loaded bytes loaded
  have sizeLt := ok.size_lt
  unfold step.stepBlock
  by_cases past : bytes.len ≤ walk.offset
  · have index_lt : walk.blockIndex < walk.blockCount := by
      rw [ok.count, lt_divCeil_iff sizePos]
      exact before
    have small : walk.blockIndex + 1 < 2 ^ 32 := by
      have : walk.blockIndex * 1024 ≤ walk.blockIndex * fs.blockSize :=
        Nat.mul_le_mul_left _ sizeGe
      omega
    rw [if_pos past, add32_of_lt small]
    refine ⟨_, rfl, ?_⟩
    have offset_le := ok.offset_le
    refine ⟨⟨ok.slots, ok.size_lt, ok.count, small, Nat.zero_le _, by simp⟩, ?_, ?_⟩
    · simp only [budget, running, Bool.false_eq_true, ↓reduceIte]
      have more : walk.blockCount - walk.blockIndex = walk.blockCount - (walk.blockIndex + 1) + 1 := by
        omega
      rw [more, add_mul]
      omega
    · simp only [itemsLeft, running, loaded, Bool.false_eq_true, ↓reduceIte, Option.isSome_some,
        Option.isSome_none, bytesLeft]
      split
      · rename_i another
        have beyond : (walk.blockIndex + 1) * fs.blockSize < walk.inode.size := by
          rwa [ok.count, lt_divCeil_iff sizePos] at another
        rw [add_mul] at beyond ⊢
        unfold divCeil
        omega
      · omega
  · rw [if_neg past, stepRecord_eq valid ok loaded]
    exact ⟨_, rfl, recordStep_ok ok running loaded (by omega)⟩

theorem step_ok (ok : walk.Ok fs) : ∃ r, step fs walk = some r ∧ StepOk fs walk r := by
  unfold step
  by_cases finished : walk.finished
  · rw [if_pos finished]
    exact ⟨_, rfl, trivial⟩
  have running : walk.finished = false := by simpa using finished
  rw [if_neg finished]
  split
  next unloaded =>
    split
    · exact ⟨_, rfl, trivial⟩
    rename_i more
    have sat := fileBlock_sat valid ok.slots ok.index_lt
    have start : walk.itemsLeft fs = max 1 (divCeil (walk.bytesLeft fs) 8) := by
      simp only [itemsLeft, running, unloaded, Bool.false_eq_true, ↓reduceIte, Option.isSome_none]
      rw [if_pos (by omega)]
    split
    next failed => simp [failed] at sat
    next e failed => exact ⟨_, rfl, progress_finish ok running (by omega)⟩
    next bytes read =>
      rw [read] at sat
      have loadedOk : ({ walk with block := some bytes } : DirEntries).Ok fs := by
        refine ⟨ok.slots, ok.size_lt, ok.count, ok.index_lt, ok.offset_le, ?_⟩
        rintro _ ⟨⟩
        exact sat
      obtain ⟨r, ran, fine⟩ := stepBlock_ok valid loadedOk running rfl
      refine ⟨r, ran, ?_⟩
      have fewer : ({ walk with block := some bytes } : DirEntries).itemsLeft fs ≤
          walk.itemsLeft fs := by
        rw [start]
        simp only [itemsLeft, running, Bool.false_eq_true, ↓reduceIte, Option.isSome_some,
          bytesLeft]
        omega
      have widen : ∀ after items, Progress fs { walk with block := some bytes } after items →
          Progress fs walk after items := fun after items p =>
        ⟨p.ok, p.budget_lt, le_trans p.itemsLeft_le fewer⟩
      cases r with
      | again after => exact widen _ _ fine
      | item item after =>
        cases item with
        | none => trivial
        | some item => exact widen _ _ fine
  next bytes loaded => exact stepBlock_ok valid ok running loaded

theorem nextWithin_ok (rounds : Nat) (ok : walk.Ok fs) (enough : walk.budget fs < rounds) :
    ∃ item after, nextWithin fs rounds walk = some (item, after) ∧
      (item.isSome → Progress fs walk after 1) := by
  induction rounds generalizing walk with
  | zero => omega
  | succ rounds ih =>
    obtain ⟨r, ran, fine⟩ := step_ok valid ok
    unfold nextWithin
    rw [ran]
    cases r with
    | again after =>
      obtain ⟨item, last, found, progress⟩ := ih fine.ok (by have := fine.budget_lt; omega)
      refine ⟨item, last, found, fun some => ?_⟩
      have p := progress some
      refine ⟨p.ok, lt_trans p.budget_lt fine.budget_lt, ?_⟩
      exact le_trans p.itemsLeft_le fine.itemsLeft_le
    | item item after =>
      refine ⟨item, after, rfl, fun some => ?_⟩
      obtain ⟨entry, rfl⟩ := Option.isSome_iff_exists.mp some
      exact fine

omit valid in
theorem budget_lt_rounds (walk : DirEntries) : walk.budget fs < walk.rounds fs := by
  unfold budget rounds
  split
  · omega
  · have : (walk.blockCount - walk.blockIndex) * (fs.blockSize + 1) ≤
        (walk.blockCount - walk.blockIndex) * (fs.blockSize + 2) := Nat.mul_le_mul_left _ (by omega)
    rw [add_mul]
    omega

theorem next_ok (ok : walk.Ok fs) : ∃ item after, walk.next fs = some (item, after) ∧
      (item.isSome → Progress fs walk after 1) :=
  nextWithin_ok valid _ ok (budget_lt_rounds walk)

theorem collectWithin_ok (fuel : Nat) (ok : walk.Ok fs) (enough : walk.budget fs < fuel) :
    ∃ items, collectWithin fs fuel walk = some items ∧ items.length ≤ walk.itemsLeft fs := by
  induction fuel generalizing walk with
  | zero => omega
  | succ fuel ih =>
    obtain ⟨item, after, found, progress⟩ := next_ok valid ok
    unfold collectWithin
    rw [found]
    cases item with
    | none => exact ⟨[], rfl, Nat.zero_le _⟩
    | some item =>
      have p := progress rfl
      obtain ⟨items, rest, bound⟩ := ih p.ok (by have := p.budget_lt; omega)
      refine ⟨item :: items, by simp [rest], ?_⟩
      have := p.itemsLeft_le
      simp only [List.length_cons]
      omega

theorem collect_ok (ok : walk.Ok fs) :
    ∃ items, walk.collect fs = some items ∧ items.length ≤ walk.itemsLeft fs :=
  collectWithin_ok valid _ ok (budget_lt_rounds walk)

end Accepted

end DirEntries

section Accepted

variable {fs : Ext2} (valid : fs.Valid)
include valid

/-- What the walk needs of an inode: the whole array, and a directory has no upper half of
its size. -/
structure Inode.Walkable (i : Inode) : Prop where
  slots : i.blocks.length = 15
  size_lt : i.isDirectory → i.size < 2 ^ 32

theorem inode_walkable {ino : Nat} (read : fs.inode ino = .ok i) : i.Walkable := by
  obtain ⟨-, rfl⟩ := (inode_eq_ok valid).mp read
  refine ⟨length_inodeOf_blocks _ _ _, fun dir => ?_⟩
  have format : formatOf (fs.image.u16 (fs.layout.inodePos fs.image ino)) = modeDirectory := by
    simpa [Inode.isDirectory, inodeOf] using dir
  have notRegular : ¬ formatOf (fs.image.u16 (fs.layout.inodePos fs.image ino)) = modeRegular := by
    rw [format]
    decide
  simp only [inodeOf, if_neg notRegular]
  exact fs.image.u32_lt _

theorem directoryEntriesFrom_sat (walkable : i.Walkable) (start : Nat) :
    Sat (fs.directoryEntriesFrom i start)
      (fun walk => walk.Ok fs ∧ walk.itemsLeft fs ≤ divCeil i.size 8) (fun _ => True) := by
  have sizePos : 0 < fs.blockSize := valid.wf.blockSize_pos
  have nonzero : fs.blockSize ≠ 0 := by omega
  unfold Ext2.directoryEntriesFrom
  rw [Result.rejectIf_bind]
  split
  · trivial
  rename_i dir
  simp only [Bool.not_eq_eq_eq_not, Bool.not_true] at dir
  rw [div_of_ne nonzero, rem_of_ne nonzero]
  simp only [Result.lift_some, Result.ok_bind, Result.pure_eq, Result.sat_ok]
  refine ⟨⟨walkable.slots, walkable.size_lt (by simpa using dir), rfl, ?_, ?_, by simp⟩, ?_⟩
  · show min (start / fs.blockSize) (2 ^ 32 - 1) < 2 ^ 32
    omega
  · exact le_of_lt (Nat.mod_lt _ sizePos)
  · simp only [DirEntries.itemsLeft, Bool.false_eq_true, ↓reduceIte, Option.isSome_none,
      DirEntries.bytesLeft]
    split
    · rename_i more
      have before := (lt_divCeil_iff sizePos).mp more
      unfold divCeil
      omega
    · omega

theorem lookupAmong_sat (name : List UInt8) (fuel : Nat) (ok : walk.Ok fs)
    (enough : walk.budget fs < fuel) :
    Sat (fs.lookupAmong name fuel walk) Inode.Walkable (fun _ => True) := by
  induction fuel generalizing walk with
  | zero => omega
  | succ fuel ih =>
    obtain ⟨item, after, found, progress⟩ := DirEntries.next_ok valid ok
    unfold Ext2.lookupAmong
    rw [found]
    cases item with
    | none => trivial
    | some item =>
      have p := progress rfl
      cases item with
      | error e => trivial
      | ok entry =>
        dsimp only
        split
        · exact (inode_sat valid entry.inode).mono (fun i read _ => inode_walkable valid read)
            (fun _ _ _ => trivial)
        · exact ih p.ok (by have := p.budget_lt; omega)

theorem lookupIn_sat {dir : Inode} (walkable : dir.Walkable) (name : List UInt8) :
    Sat (fs.lookupIn dir name) Inode.Walkable (fun _ => True) := by
  unfold Ext2.lookupIn Ext2.directoryEntries
  rw [Result.sat_bind]
  refine (directoryEntriesFrom_sat valid walkable 0).mono (fun walk _ fresh => ?_) (fun _ _ _ => trivial)
  exact lookupAmong_sat valid name _ fresh.1 (DirEntries.budget_lt_rounds walk)

theorem resolve_sat (pieces : List (List UInt8)) {current : Inode} {components : Nat}
    (walkable : current.Walkable) (few : components ≤ maxPathComponents) :
    Sat (fs.resolve current components pieces) Inode.Walkable (fun _ => True) := by
  induction pieces generalizing current components with
  | nil => exact walkable
  | cons piece rest ih =>
    unfold Ext2.resolve
    split
    · exact ih walkable few
    have small : components + 1 < 2 ^ 64 := by
      have limit : maxPathComponents = 64 := rfl
      omega
    rw [add64_of_lt small]
    simp only [Result.lift_some, Result.ok_bind, Result.rejectIf_bind]
    split
    · trivial
    rename_i within
    rw [Result.sat_bind]
    exact (lookupIn_sat valid walkable piece).mono (fun i _ next => ih next (by omega))
      (fun _ _ _ => trivial)

theorem lookup_sat (path : List UInt8) :
    Sat (fs.lookup path) Inode.Walkable (fun _ => True) := by
  unfold Ext2.lookup
  rw [Result.rejectIf_bind]
  split
  · trivial
  rw [Result.sat_bind]
  refine (inode_sat valid rootInode).mono (fun root read _ => ?_) (fun _ _ _ => trivial)
  rw [Result.sat_bind]
  refine (resolve_sat valid _ (inode_walkable valid read) (Nat.zero_le _)).mono
    (fun current _ walkable => ?_) (fun _ _ _ => trivial)
  rw [Result.rejectIf_bind]
  split
  · trivial
  · exact walkable

end Accepted

/-- The reader is total. `parse` ends on every byte string, and on an accepted image so does
every call of the reader, for every argument its types allow; a walk of a directory ends
after at most one item for every eight bytes of it. -/
theorem reader_total (image : Bytes) :
    Sat (Ext2.parse image) (fun fs =>
      (∀ group, fs.groupDescriptor group ≠ .fault) ∧
      (∀ block, fs.blockBytes block ≠ .fault) ∧
      (∀ ino, Sat (fs.inode ino) (fun i =>
        (∀ index : UInt32, fs.fileBlock i index.toNat ≠ .fault) ∧
        (∀ start : UInt64, Sat (fs.directoryEntriesFrom i start.toNat) (fun walk =>
          ∃ items, walk.collect fs = some items ∧ items.length ≤ divCeil i.size 8)
          (fun _ => True)) ∧
        ∀ name, fs.lookupIn i name ≠ .fault) (fun _ => True)) ∧
      ∀ path, fs.lookup path ≠ .fault) (fun _ => True) := by
  refine (parse_sat image).mono (fun fs accepted _ => ?_) (fun _ _ _ => trivial)
  have valid := (parse_valid accepted).1
  refine ⟨fun group => (groupDescriptor_sat valid).ne_fault, fun block => ?_, fun ino => ?_,
    fun path => (lookup_sat valid path).ne_fault⟩
  · by_cases inside : block < fs.blocksCount
    · rw [blockBytes_of_lt valid inside]
      nofun
    · rw [blockBytes_of_ge (Nat.le_of_not_lt inside)]
      nofun
  · refine (inode_sat valid ino).mono (fun i read _ => ?_) (fun _ _ _ => trivial)
    have walkable := inode_walkable valid read
    refine ⟨fun index => (fileBlock_sat valid walkable.slots index.toNat_lt).ne_fault,
      fun start => ?_, fun name => (lookupIn_sat valid walkable name).ne_fault⟩
    refine (directoryEntriesFrom_sat valid walkable start.toNat).mono (fun walk _ fresh => ?_)
      (fun _ _ _ => trivial)
    obtain ⟨items, ended, bound⟩ := DirEntries.collect_ok valid fresh.1
    exact ⟨items, ended, le_trans bound fresh.2⟩

end Zaytos.Fs
