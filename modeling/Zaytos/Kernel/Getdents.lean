import Zaytos.Ext2.Consistent
import Zaytos.Ext2.Resume
import Zaytos.Kernel.FileCalls

set_option autoImplicit false

/-! A program that reads a directory with one `getdents64` after the other gets every entry
once, in the order of the walk, whatever the sizes of its buffers. -/
namespace Zaytos.Kernel

open Fs (DirEntry Ext2 Ext2Error Inode)

variable {e : DirEntry} {room start : Nat} {walk : Fs.DirEntries}
  {rest : List (Except Ext2Error DirEntry)}

namespace Listing

def recordOf (e : DirEntry) : List UInt8 :=
  (dirent64Record ⟨e.inode, e.nextOffset, direntTypeFor e.fileType, e.name⟩
    dirent64MaxRecord).getD []

def recordLen (e : DirEntry) : Nat := dirent64RecordLen e.name.length

def records (entries : List DirEntry) : List UInt8 := entries.flatMap recordOf

/-- How many entries have their records in a buffer of `room` bytes. -/
def fitting : List DirEntry → Nat → Nat
  | [], _ => 0
  | e :: rest, room => if recordLen e ≤ room then fitting rest (room - recordLen e) + 1 else 0

def positionBehind : Nat → List DirEntry → Nat
  | start, [] => start
  | _, e :: rest => positionBehind e.nextOffset rest

/-- Every buffer has room for the record that is next, and none has room for all records that are
left where the walk ends in an error. -/
def LargeEnough (sound : Prop) : List DirEntry → List Nat → Prop
  | _, [] => True
  | entries, count :: counts =>
    (∀ e ∈ entries.head?, recordLen e ≤ count) ∧
      (sound ∨ fitting entries count < entries.length) ∧
      LargeEnough sound (entries.drop (fitting entries count)) counts

theorem dirent64RecordLen_eq (nameLen : Nat) :
    dirent64RecordLen nameLen = (nameLen + 27) / 8 * 8 := by
  simp only [dirent64RecordLen, dirent64HeaderLen, dirent64Align]
  omega

theorem record_fits {nameLen : Nat} (short : nameLen ≤ 255) :
    ¬ (dirent64MaxRecord < dirent64HeaderLen + nameLen + 1 ∨
      dirent64MaxRecord < dirent64RecordLen nameLen) := by
  rw [dirent64RecordLen_eq]
  simp only [dirent64HeaderLen, dirent64MaxRecord]
  omega

theorem record_eq (short : e.name.length ≤ 255) :
    dirent64Record ⟨e.inode, e.nextOffset, direntTypeFor e.fileType, e.name⟩ dirent64MaxRecord =
      some (recordOf e) := by
  unfold recordOf dirent64Record
  dsimp only
  rw [if_neg (record_fits short), Option.getD_some]

theorem length_recordOf (short : e.name.length ≤ 255) : (recordOf e).length = recordLen e := by
  have written := record_eq short
  unfold dirent64Record at written
  dsimp only at written
  rw [if_neg (record_fits short)] at written
  rw [← Option.some.inj written]
  simp only [List.length_append, leBytes, List.length_map, List.length_range,
    List.length_singleton, List.length_replicate, recordLen, dirent64RecordLen_eq,
    dirent64HeaderLen]
  omega

theorem recordLen_pos (e : DirEntry) : 0 < recordLen e := by
  rw [recordLen, dirent64RecordLen_eq]
  omega

@[simp] theorem records_nil : records [] = [] := rfl

@[simp] theorem records_cons (e : DirEntry) (rest : List DirEntry) :
    records (e :: rest) = recordOf e ++ records rest := rfl

@[simp] theorem records_append (entries rest : List DirEntry) :
    records (entries ++ rest) = records entries ++ records rest := by
  simp [records]

theorem records_eq_nil {entries : List DirEntry} (short : ∀ e ∈ entries, e.name.length ≤ 255) :
    records entries = [] ↔ entries = [] := by
  cases entries with
  | nil => simp
  | cons e rest =>
    have pos := recordLen_pos e
    rw [← length_recordOf (short e List.mem_cons_self)] at pos
    simp [List.ne_nil_of_length_pos pos]

theorem fitting_le (entries : List DirEntry) (room : Nat) :
    fitting entries room ≤ entries.length := by
  induction entries generalizing room with
  | nil => simp [fitting]
  | cons e rest ih =>
    have := ih (room - recordLen e)
    simp only [fitting, List.length_cons]
    split <;> omega

theorem fitting_all {entries : List DirEntry} (short : ∀ e ∈ entries, e.name.length ≤ 255)
    (all : (records entries).length ≤ room) :
    fitting entries room = entries.length := by
  induction entries generalizing room with
  | nil => rfl
  | cons e rest ih =>
    simp only [List.forall_mem_cons] at short
    simp only [records_cons, List.length_append, length_recordOf short.1] at all
    rw [fitting, if_pos (by omega), ih short.2 (by omega), List.length_cons]

theorem take_fitting_eq_nil {entries : List DirEntry}
    (next : ∀ e ∈ entries.head?, recordLen e ≤ room) :
    entries.take (fitting entries room) = [] ↔ entries = [] := by
  cases entries with
  | nil => simp
  | cons e rest => simp [fitting, next e rfl]

theorem positionBehind_take_succ (start : Nat) (e : DirEntry) (rest : List DirEntry) (n : Nat) :
    positionBehind start ((e :: rest).take (n + 1)) = positionBehind e.nextOffset (rest.take n) :=
  rfl

theorem positionBehind_take {n : Nat} {entries : List DirEntry} (small : n < entries.length) :
    ∃ e, entries[n]? = some e ∧ positionBehind start (entries.take (n + 1)) = e.nextOffset := by
  induction entries generalizing start n with
  | nil => cases small
  | cons e rest ih =>
    cases n with
    | zero => exact ⟨e, rfl, rfl⟩
    | succ n =>
      rw [positionBehind_take_succ]
      exact ih (Nat.lt_of_succ_lt_succ small)

end Listing

open Listing

namespace FileCall

/-- The loop of `sys_getdents64` on what a walk hands out. -/
def fillItems (count : Nat) : List (Except Ext2Error DirEntry) → Filled → Result Errno Filled
  | [], filled => .ok filled
  | .error e :: _, _ => .err (errnoForExt2 e)
  | .ok entry :: rest, filled =>
    if count < filled.written.length + recordLen entry then .ok filled
    else
      match dirent64Record ⟨entry.inode, entry.nextOffset, direntTypeFor entry.fileType,
          entry.name⟩ dirent64MaxRecord with
      | none => .err .eio
      | some record => fillItems count rest ⟨filled.written ++ record, entry.nextOffset⟩

theorem fillRecords_eq {fs : Ext2} {count fuel : Nat}
    {items : List (Except Ext2Error DirEntry)} (run : walk.collectWithin fs fuel = some items)
    (filled : Filled) : fillRecords fs count fuel walk filled = fillItems count items filled := by
  induction fuel generalizing walk items filled with
  | zero => cases run
  | succ fuel ih =>
    unfold fillRecords
    obtain ⟨after, found, rfl⟩ | ⟨item, after, rest, found, restEq, rfl⟩ :=
      Fs.DirEntries.collectWithin_cases run
    · rw [found]
      rfl
    · rw [found]
      cases item with
      | error e => rfl
      | ok entry =>
        rw [fillItems, recordLen]
        dsimp only
        by_cases full : count < filled.written.length + dirent64RecordLen entry.name.length
        · rw [if_pos full, if_pos full]
        · rw [if_neg full, if_neg full]
          cases dirent64Record ⟨entry.inode, entry.nextOffset, direntTypeFor entry.fileType,
              entry.name⟩ dirent64MaxRecord with
          | none => rfl
          | some record => exact ih restEq _

theorem fillItems_entries {count : Nat} {entries : List DirEntry}
    (short : ∀ e ∈ entries, e.name.length ≤ 255) (rest : List (Except Ext2Error DirEntry))
    (filled : Filled) (room : filled.written.length ≤ count) :
    let n := fitting entries (count - filled.written.length)
    let after : Filled := ⟨filled.written ++ records (entries.take n),
      positionBehind filled.nextFrom (entries.take n)⟩
    fillItems count (entries.map .ok ++ rest) filled =
      if n = entries.length then fillItems count rest after else .ok after := by
  induction entries generalizing filled with
  | nil =>
    intro n after
    rw [if_pos (le_antisymm (fitting_le _ _) (Nat.zero_le _))]
    show fillItems count rest filled = fillItems count rest ⟨filled.written ++ [], _⟩
    rw [List.append_nil]
    rfl
  | cons e entries ih =>
    intro n after
    simp only [List.forall_mem_cons] at short
    have length := length_recordOf short.1
    rw [List.map_cons, List.cons_append, fillItems, record_eq short.1]
    by_cases fits : recordLen e ≤ count - filled.written.length
    · have next := ih short.2 ⟨filled.written ++ recordOf e, e.nextOffset⟩
        (by rw [List.length_append, length]; omega)
      rw [if_neg (by omega)]
      dsimp only at next ⊢
      rw [List.length_append, length, ← Nat.sub_sub] at next
      have count_eq : n =
          fitting entries (count - filled.written.length - recordLen e) + 1 := if_pos fits
      rw [next]
      simp only [after, count_eq, List.length_cons, Nat.add_right_cancel_iff, List.take_succ_cons,
        records_cons, List.append_assoc]
      rfl
    · have none : n = 0 := if_neg fits
      rw [if_pos (by omega), if_neg (by rw [none]; simp)]
      simp [after, none, positionBehind]

/-- Descriptor `fd` stands in directory `i` of the root file system, where a walk hands out
`items`. -/
structure Stands (fs : Ext2) (fd : Nat) (i : Inode) (items : List (Except Ext2Error DirEntry))
    (s : FileState) : Prop where
  root : Ext2.parse s.rootImage = .ok fs
  opened : ∃ start writable, s.files.get fd = .ok (.regular i start writable) ∧
    fs.WalksFrom i start items

variable {fs : Ext2} {fd count : Nat} {i : Inode} {items : List (Except Ext2Error DirEntry)}
  {s : FileState}

theorem get_seekTo {t : FileTable} {position : Nat} {writable : Bool}
    (opened : t.get fd = .ok (.regular i start writable)) :
    (t.seekTo fd position).get fd = .ok (.regular i (min position i.size) writable) := by
  obtain ⟨small, entry⟩ := FileTable.get_ok opened
  unfold FileTable.seekTo FileTable.get FileTable.set
  rw [dif_pos small, dif_pos small]
  dsimp only
  rw [Function.update_self, entry]
  rfl

theorem somethingLeft_eq
    (fresh : fs.directoryEntriesFrom i start = .ok walk) (run : walk.collect fs = some items) :
    somethingLeft fs i start = .ok (!items.isEmpty) := by
  unfold somethingLeft
  rw [fresh]
  dsimp only
  unfold Fs.DirEntries.collect Fs.DirEntries.rounds at run
  obtain ⟨after, found, rfl⟩ | ⟨item, after, rest, found, -, rfl⟩ :=
    Fs.DirEntries.collectWithin_cases run
  · rw [found]
    rfl
  · rw [found]
    rfl

theorem sysGetdents64_eq (count : Nat) (dir : i.isDirectory = true) {start : Nat} {writable : Bool}
    (root : Ext2.parse s.rootImage = .ok fs)
    (opened : s.files.get fd = .ok (.regular i start writable))
    (walks : fs.WalksFrom i start items) :
    sysGetdents64 fd count true s = match fillItems count items ⟨[], start⟩ with
      | .fault => .fault
      | .err e => .err e s
      | .ok filled =>
        if filled.written = [] ∧ filled.nextFrom = start then
          if items = [] then .ok [] s else .err .einval s
        else .ok filled.written { s with files := s.files.seekTo fd filled.nextFrom } := by
  obtain ⟨walk, fresh, -, run⟩ := walks
  have found : openedAt s.files fd = .ok (i, start) := by
    unfold openedAt
    rw [opened]
    rfl
  have parsed : rootFilesystem s = .ok fs s := by
    apply Exec.read_of_ok
    rw [root]
    rfl
  unfold sysGetdents64
  rw [Exec.bind_of_ok (Exec.read_of_ok (f := fun s : FileState => openedAt s.files fd) found)]
  dsimp only
  rw [Exec.bind_of_ok (Exec.rejectIf_of_not (by simp [dir])),
    Exec.bind_of_ok (Exec.rejectIf_of_not (by simp)), Exec.bind_of_ok parsed, fresh,
    Exec.bind_of_ok (show Exec.read _ s = .ok walk s from rfl), fillRecords_eq run]
  cases loop : fillItems count items ⟨[], start⟩ with
  | fault => exact Exec.bind_of_fault rfl
  | err e => exact Exec.bind_of_err rfl
  | ok filled =>
    rw [Exec.bind_of_ok (show Exec.read _ s = .ok filled s from rfl)]
    dsimp only
    by_cases nothing : filled.written = [] ∧ filled.nextFrom = start
    · rw [if_pos nothing, if_pos nothing]
      rw [somethingLeft_eq fresh run, Exec.bind_of_ok (show Exec.read _ s = .ok _ s from rfl)]
      by_cases none : items = []
      · rw [if_pos none, Exec.bind_of_ok (Exec.rejectIf_of_not (by simp [none]))]
        rfl
      · rw [if_neg none, Exec.bind_of_err (Exec.rejectIf_of (by simp [none]))]
    · rw [if_neg nothing, if_neg nothing, Exec.bind_of_ok (show seek _ _ s = .ok () _ from rfl)]
      rfl

section Directory

variable (walkable : i.Walkable) (dir : i.isDirectory = true) {entries : List DirEntry}
include walkable dir

omit walkable dir in
theorem names_short (valid : fs.Valid) (walks : fs.WalksFrom i start (entries.map .ok ++ rest)) :
    ∀ e ∈ entries, e.name.length ≤ 255 := by
  intro e mem
  obtain ⟨k, small, rfl⟩ := List.mem_iff_getElem.mp mem
  apply (Ext2.WalksFrom.entry valid walks (k := k) _).2
  rw [List.getElem?_append_left (by simpa using small), List.getElem?_map,
    List.getElem?_eq_getElem small]
  rfl

theorem Stands.call (stands : Stands fs fd i (entries.map .ok ++ rest) s)
    (room : ∀ e ∈ entries.head?, recordLen e ≤ count)
    (stops : rest = [] ∨ fitting entries count < entries.length) :
    ∃ s', sysGetdents64 fd count true s = .ok (records (entries.take (fitting entries count))) s' ∧
      Stands fs fd i ((entries.drop (fitting entries count)).map .ok ++ rest) s' := by
  obtain ⟨root, start, writable, opened, walks⟩ := stands
  have valid := (Fs.parse_valid root).1
  have call := sysGetdents64_eq count dir root opened walks
  cases entries with
  | nil =>
    obtain rfl : rest = [] := stops.resolve_right (Nat.not_lt_zero _)
    rw [List.map_nil, List.append_nil, fillItems] at call
    exact ⟨s, by simpa using call, root, start, writable, opened, walks⟩
  | cons e entries =>
    have short := names_short valid walks
    have loop := fillItems_entries short rest ⟨[], start⟩ (Nat.zero_le count)
    have first : fitting (e :: entries) count = fitting entries (count - recordLen e) + 1 :=
      if_pos (room e rfl)
    have small : fitting entries (count - recordLen e) < (e :: entries).length :=
      Nat.lt_succ_of_le (fitting_le _ _)
    dsimp only [List.length_nil, Nat.sub_zero, List.nil_append] at loop
    have ended : ∀ filled : Filled, (if fitting (e :: entries) count = (e :: entries).length then
        fillItems count rest filled else .ok filled) = .ok filled := by
      intro filled
      obtain rfl | before := stops
      · exact ite_self _
      · exact if_neg (Nat.ne_of_lt before)
    rw [ended] at loop
    rw [loop] at call
    dsimp only at call
    have written : records ((e :: entries).take (fitting (e :: entries) count)) ≠ [] := by
      rw [Ne, records_eq_nil fun e' mem => short e' (List.mem_of_mem_take mem), first]
      simp
    rw [if_neg fun nothing => written nothing.1] at call
    obtain ⟨last, at_last, behind⟩ := positionBehind_take small
    have here : ((e :: entries).map Except.ok ++ rest)[fitting entries (count - recordLen e)]? =
        some (.ok last) := by
      rw [List.getElem?_append_left (by simpa using small), List.getElem?_map, at_last]
      rfl
    have entry := Ext2.WalksFrom.entry valid walks here
    refine ⟨_, call, root, _, writable, get_seekTo opened, ?_⟩
    rw [first, behind, min_eq_left entry.1, List.map_drop,
      ← List.drop_append_of_le_length (by rw [List.length_map]; exact small)]
    exact walks.resumes valid walkable dir here

omit walkable in
/-- A call that has room for all records up to one that is not sound reports what is wrong with
that one, and the descriptor stays where it is. -/
theorem Stands.fails {e : Ext2Error}
    (stands : Stands fs fd i (entries.map .ok ++ .error e :: rest) s)
    (room : (records entries).length ≤ count) :
    sysGetdents64 fd count true s = .err (errnoForExt2 e) s := by
  obtain ⟨root, start, writable, opened, walks⟩ := stands
  have short := names_short (Fs.parse_valid root).1 walks
  have loop := fillItems_entries short (.error e :: rest) ⟨[], start⟩ (Nat.zero_le count)
  dsimp only [List.length_nil, Nat.sub_zero, List.nil_append] at loop
  rw [fitting_all short (by simpa using room), if_pos rfl, fillItems] at loop
  rw [sysGetdents64_eq _ dir root opened walks, loop]

end Directory

/-- One `getdents64` after the other. -/
def getdentsCalls (fd : Nat) : List Nat → FileCall (List (List UInt8))
  | [] => pure []
  | count :: counts => do
    let written ← sysGetdents64 fd count true
    let later ← getdentsCalls fd counts
    pure (written :: later)

/-- The groups of entries that calls get, one group for each call, take up the listing in order,
and a call gets none only behind the last entry. -/
structure InGroups (entries : List DirEntry) (groups : List (List DirEntry)) : Prop where
  inOrder : groups.flatten <+: entries
  atEnd : ∀ k group, groups[k]? = some group → (group = [] ↔ (groups.take k).flatten = entries)

theorem InGroups.cons {entries : List DirEntry} {groups : List (List DirEntry)} {n : Nat}
    (first : entries.take n = [] ↔ entries = []) (later : InGroups (entries.drop n) groups) :
    InGroups entries (entries.take n :: groups) := by
  constructor
  · have longer := (List.prefix_append_right_inj (entries.take n)).mpr later.inOrder
    rwa [List.take_append_drop] at longer
  · intro k group here
    cases k with
    | zero =>
      obtain rfl := Option.some.inj here
      rw [first, List.take_zero, List.flatten_nil, eq_comm]
    | succ k =>
      rw [later.atEnd k group here, List.take_succ_cons, List.flatten_cons]
      nth_rewrite 3 [← List.take_append_drop n entries]
      rw [List.append_cancel_left_eq]

theorem getdentsCalls_eq (walkable : i.Walkable) (dir : i.isDirectory = true)
    {entries : List DirEntry} (counts : List Nat)
    (stands : Stands fs fd i (entries.map .ok ++ rest) s)
    (large : LargeEnough (rest = []) entries counts) :
    ∃ groups s', getdentsCalls fd counts s = .ok (groups.map records) s' ∧
      groups.length = counts.length ∧ InGroups entries groups ∧
      Stands fs fd i ((entries.drop groups.flatten.length).map .ok ++ rest) s' := by
  induction counts generalizing entries s with
  | nil =>
    refine ⟨[], s, rfl, rfl, ⟨List.nil_prefix, ?_⟩, stands⟩
    intro k group here
    cases here
  | cons count counts ih =>
    obtain ⟨t, call, next⟩ := stands.call walkable dir large.1 large.2.1
    obtain ⟨groups, s', calls, length, inGroups, last⟩ := ih next large.2.2
    refine ⟨_ :: groups, s', ?_, congrArg (· + 1) length,
      inGroups.cons (take_fitting_eq_nil large.1), ?_⟩
    · rw [getdentsCalls, Exec.bind_of_ok call, Exec.bind_of_ok calls]
      rfl
    · rw [List.drop_drop] at last
      rwa [List.flatten_cons, List.length_append, List.length_take,
        min_eq_left (fitting_le entries count)]

/-- What programs can rely on when they read directory `i`, of which a walk hands out `items`. -/
structure Readable (image : Bytes) (fs : Ext2) (i : Inode) (items : List (Except Ext2Error DirEntry)) :
    Prop where
  walks : fs.WalksFrom i 0 items
  resumes : ∀ (k : Nat) e, items[k]? = some (.ok e) → fs.WalksFrom i e.nextOffset (items.drop (k + 1))
  /-- Calls with large enough buffers get the entries in order, each once, and a call gets none
  only behind the last. Where the walk ends in an error, a call with room for all records that
  are left before it reports the error and changes nothing. -/
  calls : ∀ entries rest, items = entries.map .ok ++ rest →
    ∀ (s : FileState) (fd : Nat) writable, s.rootImage = image →
      s.files.get fd = .ok (.regular i 0 writable) →
    ∀ counts, LargeEnough (rest = []) entries counts →
      ∃ groups s', getdentsCalls fd counts s = .ok (groups.map records) s' ∧
        groups.length = counts.length ∧ InGroups entries groups ∧
        ∀ e more count, rest = .error e :: more →
          (records (entries.drop groups.flatten.length)).length ≤ count →
          sysGetdents64 fd count true s' = .err (errnoForExt2 e) s'

theorem getdents_reads {image : Bytes} {ino : Nat} (parsed : Ext2.parse image = .ok fs)
    (read : fs.inode ino = .ok i) (dir : i.isDirectory = true) :
    ∃ items, Readable image fs i items := by
  have valid := (Fs.parse_valid parsed).1
  have walkable := Fs.inode_walkable valid read
  obtain ⟨items, walks⟩ := Ext2.walksFrom_of valid walkable dir 0
  refine ⟨items, walks, fun k e here => walks.resumes valid walkable dir here, ?_⟩
  intro entries rest split s fd writable root opened counts large
  have stands : Stands fs fd i (entries.map .ok ++ rest) s :=
    ⟨root ▸ parsed, 0, writable, opened, split ▸ walks⟩
  obtain ⟨groups, s', calls, length, inGroups, last⟩ := getdentsCalls_eq walkable dir counts stands large
  refine ⟨groups, s', calls, length, inGroups, ?_⟩
  intro e more count failed room
  rw [failed] at last
  exact last.fails dir room

/-- The root directory of a small image. -/
theorem getdents_reads_root : ∃ fs i, Ext2.parse (Fs.smallImage 0) = .ok fs ∧
    fs.inode 2 = .ok i ∧ i.isDirectory = true ∧ ∃ items, Readable (Fs.smallImage 0) fs i items := by
  have facts : (Ext2.parse (Fs.smallImage 0)).any (fun fs =>
      (fs.inode 2).any Inode.isDirectory) = true := by decide
  obtain ⟨fs, parsed, facts⟩ := Result.any_eq_true.mp facts
  obtain ⟨i, read, dir⟩ := Result.any_eq_true.mp facts
  exact ⟨fs, i, parsed, read, dir, getdents_reads parsed read dir⟩

def brokenImage : Bytes := (Fs.smallImage 0).putU16 7184 0

def breaksAfterDot : List (Except Ext2Error DirEntry) → Bool
  | [.ok e, .error failed] => decide (failed = .dirEntryRecordTooSmall 0 2) && decide (e.name = [46])
  | _ => false

theorem breaksAfterDot_eq {items : List (Except Ext2Error DirEntry)}
    (breaks : breaksAfterDot items = true) :
    ∃ e, items = [.ok e, .error (.dirEntryRecordTooSmall 0 2)] ∧ e.name = [46] := by
  unfold breaksAfterDot at breaks
  split at breaks
  next e failed =>
    obtain ⟨failed_eq, name⟩ := Bool.and_eq_true_iff.mp breaks
    exact ⟨e, of_decide_eq_true failed_eq ▸ rfl, of_decide_eq_true name⟩
  next => cases breaks

/-- The entry in front of a record that is not sound is not handed out by a call that meets
both, although its record fits. -/
theorem getdents_drops_entry : ∃ fs i e, Ext2.parse brokenImage = .ok fs ∧
    fs.inode 2 = .ok i ∧ i.isDirectory = true ∧
    fs.WalksFrom i 0 [.ok e, .error (.dirEntryRecordTooSmall 0 2)] ∧ recordLen e ≤ 280 ∧
    ∃ s : FileState, s.rootImage = brokenImage ∧ s.files.get 3 = .ok (.regular i 0 false) ∧
      sysGetdents64 3 280 true s = .err .eio s := by
  have facts : (Ext2.parse brokenImage).any (fun fs => (fs.inode 2).any fun i =>
      i.isDirectory && (fs.directoryEntriesFrom i 0).any fun walk =>
        (walk.collect fs).any breaksAfterDot) = true := by decide
  obtain ⟨fs, parsed, facts⟩ := Result.any_eq_true.mp facts
  obtain ⟨i, read, facts⟩ := Result.any_eq_true.mp facts
  obtain ⟨dir, facts⟩ := Bool.and_eq_true_iff.mp facts
  obtain ⟨walk, fresh, facts⟩ := Result.any_eq_true.mp facts
  obtain ⟨items, run, facts⟩ := (Option.any_eq_true _ _).mp facts
  obtain ⟨e, rfl, name⟩ := breaksAfterDot_eq facts
  have valid := (Fs.parse_valid parsed).1
  have walkable := Fs.inode_walkable valid read
  obtain ⟨walk', fresh', of⟩ := Fs.Ext2.directoryEntriesFrom_of valid walkable dir 0
  obtain rfl := Result.ok.inj (fresh.symm.trans fresh')
  have walks : fs.WalksFrom i 0 [.ok e, .error (.dirEntryRecordTooSmall 0 2)] :=
    ⟨walk, fresh, of, run⟩
  have len : recordLen e = 24 := by
    rw [recordLen, name]
    rfl
  let s : FileState := ⟨some brokenImage, FileTable.new.set 3 (some (.regular i 0 false))⟩
  have stands : Stands fs 3 i ([e].map .ok ++ [.error (.dirEntryRecordTooSmall 0 2)]) s :=
    ⟨parsed, 0, false, rfl, walks⟩
  refine ⟨fs, i, e, parsed, read, dir, walks, by omega, s, rfl, rfl, ?_⟩
  apply stands.fails dir
  rw [records_cons, records_nil, List.append_nil, length_recordOf, len]
  · omega
  · exact (Ext2.WalksFrom.entry valid walks (k := 0) rfl).2

end FileCall

end Zaytos.Kernel
