import Zaytos.Ext2.AppendSpec

set_option autoImplicit false

/-! The functions that change the namespace, on the areas of a consistent image. Each is
described by the contents it leaves behind, area by area. -/
namespace Zaytos.Fs

open Writer
open Exec (Wp Wlp)

namespace Disk

/-- A new record behind the record at `p` of block `b`. -/
def insertRecord (m : Disk) (b p ino : Nat) (name : List UInt8) (fileType : UInt8) : Disk :=
  m.set (.data b) (insertAt (m (.data b)) p (direntSpan (recordAt (m (.data b)) p).nameLen) ino name
    fileType)

/-- The record at `q` of block `b` goes, and the one at `p` before it takes its room. -/
def removeRecord (m : Disk) (b p q : Nat) : Disk := m.set (.data b) (removeAt (m (.data b)) p q)

def setLinks (m : Disk) (ino v : Nat) : Disk := m.set (.inode ino) ((m (.inode ino)).putU16 26 v)

def setUsedDirs (m : Disk) (g v : Nat) : Disk := m.set (.usedDirs g) ((m (.usedDirs g)).putU16 0 v)

def clearInode (L : Layout) (m : Disk) (ino : Nat) : Disk :=
  m.set (.inode ino) ((m (.inode ino)).put 0 L.inodeSize fun _ => 0)

end Disk

section Contents

variable (L : Layout)

def withExtra (d : Bytes) : Bytes :=
  if L.wantExtraIsize ≠ 0 then d.putU16 inodeExtraIsize L.wantExtraIsize else d

def fileInode (d : Bytes) : Bytes :=
  (withExtra L ((d.put 0 L.inodeSize fun _ => 0).putU16 0 (modeRegular ||| 0o644))).putU16 26 1

def dirInode (d : Bytes) (block : Nat) : Bytes :=
  withExtra L ((((((d.put 0 L.inodeSize fun _ => 0).putU16 0 (modeDirectory ||| 0o755)).putU32 4
    L.blockSize).putU16 26 2).putU32 28 L.sectorsPerBlock).putU32 40 block)

def dots (d : Bytes) (ino parent : Nat) : Bytes :=
  (((((((((((d.put 0 L.blockSize fun _ => 0).putU32 0 ino).putU16 4 12).put 6 1 fun _ => 1).put 7 1
    fun _ => direntTypeDirectory).put 8 1 fun _ => 46).putU32 12 parent).putU16 16
    (L.blockSize - 12)).put 18 1 fun _ => 2).put 19 1 fun _ => direntTypeDirectory).put 20 1
    fun _ => 46).put 21 1 fun _ => 46

end Contents

variable {f : Nat → UInt8} {a : Area} {name : List UInt8} {b p ino q dir : Nat} {delta : Int}

section Stores

variable {G : Geometry} {base image : Bytes} {m : Disk} (shows : G.Shows base image m)
include shows

theorem Geometry.Shows.wp_store (o n : Nat) (valid : G.areaValid a) (inside : o + n ≤ G.areaLen a) :
    Wp (store (G.areaPos a + o) n f) image
      (fun _ after => G.Shows base after (m.set a ((m a).put o n f))) (fun _ _ => False) := by
  have areaEnd := shows.area_le valid
  rw [Zaytos.Fs.wp_store]
  exact ⟨by omega, shows.put f valid inside⟩

theorem Geometry.Shows.wp_store_bind {α : Type} (o n : Nat)
    {k : Unit → Writer α} {Q : α → Bytes → Prop} {E : AllocError → Bytes → Prop}
    (valid : G.areaValid a) (inside : o + n ≤ G.areaLen a)
    (rest : ∀ after, G.Shows base after (m.set a ((m a).put o n f)) → Wp (k ()) after Q E) :
    Wp (store (G.areaPos a + o) n f >>= k) image Q E := by
  rw [Exec.wp_bind]
  exact (shows.wp_store o n valid inside).mono (fun _ after _ => rest after) (fun _ _ _ h => h.elim)

theorem insertDirent_wp {fileType : UInt8} (data : G.DataBlock b)
    (span : direntSpan (recordAt (m (.data b)) p).nameLen + direntSpan name.length ≤
      (recordAt (m (.data b)) p).recLen)
    (inside : p + (recordAt (m (.data b)) p).recLen ≤ G.layout.blockSize) :
    Wp (insertDirent (b * G.layout.blockSize + p) ino name fileType) image
      (fun _ after => G.Shows base after (m.insertRecord b p ino name fileType))
      (fun _ _ => False) := by
  have valid : G.areaValid (.data b) := data
  have blockEnd : b * G.layout.blockSize + G.layout.blockSize ≤ image.len := shows.area_le valid
  have keepGe := le_direntSpan (recordAt (m (.data b)) p).nameLen
  have nameGe := le_direntSpan name.length
  have nameAt : image.get (b * G.layout.blockSize + p + 6) = (m (.data b)).get (p + 6) := by
    rw [add_assoc]
    exact shows.get valid (by simp only [Geometry.areaLen]; omega)
  have recLenAt : image.u16 (b * G.layout.blockSize + p + 4) = (recordAt (m (.data b)) p).recLen := by
    rw [add_assoc]
    exact shows.u16 valid (by simp only [Geometry.areaLen]; omega)
  have keepEq : direntSpan ((m (.data b)).get (p + 6)).toNat =
    direntSpan (recordAt (m (.data b)) p).nameLen := rfl
  have len : G.areaLen (.data b) = G.layout.blockSize := rfl
  unfold insertDirent
  simp only [Exec.wp_bind, wp_readU8, wp_readU16, nameAt, recLenAt, keepEq, Exec.wp_lift,
    sub_of_le (show direntSpan (recordAt (m (.data b)) p).nameLen ≤
      (recordAt (m (.data b)) p).recLen by omega)]
  refine ⟨by omega, by omega, _, rfl, ?_⟩
  simp only [← Exec.wp_bind, add_assoc]
  refine shows.wp_store_bind (a := .data b) (p + 4) 2 valid (by omega) fun _ shows => ?_
  refine shows.wp_store_bind (a := .data b) (p + direntSpan (recordAt (m (.data b)) p).nameLen) 4
    valid (by omega) fun _ shows => ?_
  refine shows.wp_store_bind (a := .data b)
    (p + (direntSpan (recordAt (m (.data b)) p).nameLen + 4)) 2 valid (by omega) fun _ shows => ?_
  refine shows.wp_store_bind (a := .data b)
    (p + (direntSpan (recordAt (m (.data b)) p).nameLen + 6)) 1 valid (by omega) fun _ shows => ?_
  refine shows.wp_store_bind (a := .data b)
    (p + (direntSpan (recordAt (m (.data b)) p).nameLen + 7)) 1 valid (by omega) fun _ shows => ?_
  refine (shows.wp_store (a := .data b)
    (p + (direntSpan (recordAt (m (.data b)) p).nameLen + 8)) name.length valid (by omega)).mono
    (fun _ after _ h => ?_) (fun _ _ _ h => h)
  simp only [Disk.set_self, Disk.set_set] at h
  unfold Disk.insertRecord insertAt
  simp only [add_assoc]
  exact h

theorem removeDirent_wp (data : G.DataBlock b) (order : p + 8 ≤ q)
    (inside : q + (recordAt (m (.data b)) q).recLen ≤ G.layout.blockSize)
    (header : 8 ≤ (recordAt (m (.data b)) q).recLen) :
    Wp (removeDirent (b * G.layout.blockSize + q) (b * G.layout.blockSize + p)) image
      (fun _ after => (recordAt (m (.data b)) p).recLen + (recordAt (m (.data b)) q).recLen < 2 ^ 16 ∧
        G.Shows base after (m.removeRecord b p q))
      (fun _ after => 2 ^ 16 ≤ (recordAt (m (.data b)) p).recLen + (recordAt (m (.data b)) q).recLen ∧
        after = image) := by
  have valid : G.areaValid (.data b) := data
  have blockEnd : b * G.layout.blockSize + G.layout.blockSize ≤ image.len := shows.area_le valid
  have len : G.areaLen (.data b) = G.layout.blockSize := rfl
  have lenP : image.u16 (b * G.layout.blockSize + p + 4) = (recordAt (m (.data b)) p).recLen := by
    rw [add_assoc]
    exact shows.u16 valid (by omega)
  have lenQ : image.u16 (b * G.layout.blockSize + q + 4) = (recordAt (m (.data b)) q).recLen := by
    rw [add_assoc]
    exact shows.u16 valid (by omega)
  unfold removeDirent
  simp only [Exec.wp_bind, wp_readU16, lenP, lenQ, Exec.wp_rejectIf]
  refine ⟨by omega, by omega, fun large => ⟨large, trivial⟩, fun small => ?_⟩
  rw [← Exec.wp_bind, add_assoc]
  refine shows.wp_store_bind (a := .data b) (p + 4) 2 valid (by omega) fun _ shows => ?_
  refine (shows.wp_store (a := .data b) q _ valid (by omega)).mono (fun _ after _ h => ?_)
    (fun _ _ _ h => h.elim)
  rw [Disk.set_self, Disk.set_set] at h
  exact ⟨by omega, h⟩

theorem bumpLinks_wp (has : G.layout.HasInode ino) : Wp (bumpLinks G.layout ino delta) image
      (fun _ after => ∃ v, addSigned16 (m.links ino) delta = some v ∧
        G.Shows base after (m.setLinks ino v))
      (fun _ after => addSigned16 (m.links ino) delta = none ∧ after = image) := by
  have slotEnd := inode_end_le shows has
  have sizeGe := G.wf.inodeSize_ge_128
  have len : G.areaLen (.inode ino) = G.layout.inodeSize := rfl
  have links : image.u16 (G.areaPos (.inode ino) + 26) = m.links ino :=
    shows.u16 (a := .inode ino) has (by omega)
  unfold bumpLinks inodeAtOr
  simp only [Exec.wp_bind, Exec.wp_read, shows.inodeAt_of_has has, Result.okOr_ok, Result.sat_ok,
    wp_readU16, links]
  refine ⟨by omega, ?_⟩
  cases next : addSigned16 (m.links ino) delta with
  | none => exact ⟨rfl, rfl⟩
  | some v =>
    refine (shows.wp_store (a := .inode ino) 26 2 has (by omega)).mono (fun _ after _ h => ?_)
      (fun _ _ _ h => h.elim)
    exact ⟨v, rfl, h⟩

theorem bumpUsedDirs_wp (has : G.layout.HasInode ino) : Wp (bumpUsedDirs G.layout ino delta) image
      (fun _ after => ∃ v, addSigned16 (m.usedDirs (G.layout.inodeGroup ino)) delta = some v ∧
        G.Shows base after (m.setUsedDirs (G.layout.inodeGroup ino) v))
      (fun _ after => addSigned16 (m.usedDirs (G.layout.inodeGroup ino)) delta = none ∧
        after = image) := by
  have pos := has.pos
  have perGroup := G.wf.inodesPerGroup_pos
  have group := has.group_lt
  have valid : G.areaValid (.usedDirs (G.layout.inodeGroup ino)) := group
  have areaEnd := shows.area_le valid
  have len : G.areaLen (.usedDirs (G.layout.inodeGroup ino)) = 2 := rfl
  have place : G.layout.descriptorPos (G.layout.inodeGroup ino) + groupDescriptorUsedDirsCount =
      G.areaPos (.usedDirs (G.layout.inodeGroup ino)) + 0 := rfl
  have dirs : image.u16 (G.areaPos (.usedDirs (G.layout.inodeGroup ino)) + 0) =
      m.usedDirs (G.layout.inodeGroup ino) := shows.u16 valid (by omega)
  have groupDiv : div (ino - 1) G.layout.inodesPerGroup = some (G.layout.inodeGroup ino) :=
    div_of_ne (by omega)
  unfold bumpUsedDirs
  simp only [Exec.wp_bind, Exec.wp_lift, sub_of_le (show 1 ≤ ino from pos), Option.some.injEq,
    exists_eq_left', groupDiv, Exec.wp_read, Layout.descriptorAt_of_lt G.wf group, Result.okOr_ok,
    Result.sat_ok, wp_readU16, place, dirs]
  refine ⟨by omega, ?_⟩
  cases next : addSigned16 (m.usedDirs (G.layout.inodeGroup ino)) delta with
  | none => exact ⟨rfl, rfl⟩
  | some v =>
    refine (shows.wp_store (a := .usedDirs (G.layout.inodeGroup ino)) 0 2 valid (by omega)).mono
      (fun _ after _ h => ?_) (fun _ _ _ h => h.elim)
    exact ⟨v, rfl, h⟩

end Stores

/-- The directory would take the name: it is a legal name, no record has it, and some record
has room behind it. -/
structure Admits (G : Geometry) (m : Disk) (dir : Nat) (name : List UInt8) : Prop where
  has : G.layout.HasInode dir
  isDir : m.IsDir dir
  legal : badName name = false
  fresh : ∀ k p, RecordIn G m dir k p → ¬ Named (m.block dir k) name p
  room : ∃ k p, RecordIn G m dir k p ∧ Roomy (m.block dir k) (direntSpan name.length) p

/-- The last record of the name, `q`, and the record `p` before it in its block. -/
structure Found (G : Geometry) (m : Disk) (dir : Nat) (name : List UInt8) (k : Nat)
    (l : List Nat) (p q : Nat) (r : List Nat) : Prop where
  has : G.layout.HasInode dir
  isDir : m.IsDir dir
  legal : ¬ (name = [] ∨ maxNameLen < name.length)
  block_lt : k < m.fileBlocks G.layout dir
  split : m.recordsOf G.layout dir k = l ++ p :: q :: r
  named : Named (m.block dir k) name q
  last : ∀ x ∈ r, ¬ Named (m.block dir k) name x
  later : ∀ j x, k < j → RecordIn G m dir j x → ¬ Named (m.block dir j) name x

theorem Found.unique {G : Geometry} {m : Disk} {k k' p' q' : Nat}
    {l l' r r' : List Nat} (found : Found G m dir name k l p q r)
    (found' : Found G m dir name k' l' p' q' r') : k = k' ∧ l = l' ∧ p = p' ∧ q = q' ∧ r = r' := by
  have mem : q ∈ m.recordsOf G.layout dir k := by
    rw [found.split]
    simp
  have mem' : q' ∈ m.recordsOf G.layout dir k' := by
    rw [found'.split]
    simp
  obtain rfl : k = k' := by
    by_contra ne
    rcases Nat.lt_or_gt_of_ne ne with lt | gt
    · exact found.later k' q' lt ⟨found'.block_lt, mem'⟩ found'.named
    · exact found'.later k q gt ⟨found.block_lt, mem⟩ found.named
  have same : (l ++ [p]) ++ q :: r = (l' ++ [p']) ++ q' :: r' := by
    simpa using found.split.symm.trans found'.split
  rcases List.append_eq_append_iff.mp same with ⟨c, left, right⟩ | ⟨c, left, right⟩
  · cases c with
    | nil =>
      simp only [List.append_nil, List.nil_append, List.cons.injEq] at left right
      obtain ⟨rfl, rfl⟩ := right
      obtain ⟨rfl, tail⟩ := List.append_inj' left rfl
      simp_all
    | cons x c =>
      obtain ⟨rfl, rest⟩ := List.cons.inj right
      exact absurd found'.named (found.last q' (by rw [rest]; simp))
  · cases c with
    | nil =>
      simp only [List.append_nil, List.nil_append, List.cons.injEq] at left right
      obtain ⟨rfl, rfl⟩ := right
      obtain ⟨rfl, tail⟩ := List.append_inj' left rfl
      simp_all
    | cons x c =>
      obtain ⟨rfl, rest⟩ := List.cons.inj right
      exact absurd found.named (found'.last q (by rw [rest]; simp))

section Lookup

variable {G : Geometry} {base image : Bytes} {m : Disk} (shows : G.Shows base image m)
  (con : Consistent G m)
include shows con

theorem scanDirectory_sat {want : Nat} : (scanDirectory G.layout image dir name want).Sat
      (fun _ => G.layout.HasInode dir ∧ m.IsDir dir)
      (fun _ => ¬ (G.layout.HasInode dir ∧ m.IsDir dir)) := by
  by_cases has : G.layout.HasInode dir
  · by_cases isDir : m.IsDir dir
    · rw [scanDirectory_eq shows con has isDir]
      exact ⟨has, isDir⟩
    · rw [scanDirectory_of_not_dir shows has isDir]
      exact fun both => isDir both.2
  · rw [scanDirectory_of_not_has has]
    exact fun both => has both.1

theorem roomFor_wp : Wp (roomFor G.layout dir name) image
      (fun previous after => after = image ∧ Admits G m dir name ∧ ∃ k p, RecordIn G m dir k p ∧
        Roomy (m.block dir k) (direntSpan name.length) p ∧
        previous = m.slot dir k * G.layout.blockSize + p)
      (fun _ after => after = image ∧ ¬ Admits G m dir name) := by
  unfold roomFor
  simp only [Exec.wp_bind, Exec.wp_rejectIf, Exec.wp_read]
  refine ⟨fun bad => ⟨trivial, fun admits => Bool.noConfusion (bad.symm.trans admits.legal)⟩,
    fun legal => ?_⟩
  refine (scanDirectory_sat shows con).mono ?_ ?_
  · rintro scan run ⟨has, isDir⟩
    rcases scan_found shows con has isDir run with ⟨notFound, fresh⟩ | ⟨k, l, p, r, small, split, named, -, -, found⟩
    · refine ⟨fun taken => by simp [notFound] at taken, fun _ => ?_⟩
      rcases scan_room shows con has isDir run with ⟨notRoomy, none⟩ | ⟨k, p, before, record, roomy, room⟩
      · rw [notRoomy]
        refine ⟨rfl, fun admits => ?_⟩
        obtain ⟨k, p, record, roomy⟩ := admits.room
        exact none k p record roomy
      · rw [room]
        exact ⟨rfl, ⟨has, isDir, by simpa using legal, fresh, k, p, record, roomy⟩, k, p, record,
          roomy, rfl⟩
    · refine ⟨fun _ => ⟨trivial, fun admits => ?_⟩, fun new => by simp [found] at new⟩
      exact admits.fresh k p ⟨small, by rw [split]; simp⟩ named
  · rintro e run not
    exact ⟨trivial, fun admits => not ⟨admits.has, admits.isDir⟩⟩

theorem entryOf_wp : Wp (entryOf G.layout dir name) image
      (fun place after => after = image ∧ ∃ k l p q r, Found G m dir name k l p q r ∧
        place = (m.slot dir k * G.layout.blockSize + q, m.slot dir k * G.layout.blockSize + p,
          (recordAt (m.block dir k) q).inode))
      (fun _ after => after = image ∧ ∀ k l p q r, ¬ Found G m dir name k l p q r) := by
  unfold entryOf
  simp only [Exec.wp_bind, Exec.wp_rejectIf, Exec.wp_read]
  refine ⟨fun bad => ⟨trivial, fun k l p q r found => found.legal bad⟩, fun legal => ?_⟩
  refine (scanDirectory_sat shows con).mono ?_ ?_
  · rintro scan run ⟨has, isDir⟩
    rcases scan_found shows con has isDir run with ⟨notFound, fresh⟩ | ⟨k, l, q, r, small, split, named, last, later, found⟩
    · rw [notFound]
      refine ⟨rfl, fun k l p q r found => ?_⟩
      exact fresh k q ⟨found.block_lt, by rw [found.split]; simp⟩ found.named
    · rw [found]
      rcases List.eq_nil_or_concat l with rfl | ⟨l, p, rfl⟩
      · refine ⟨rfl, fun k' l' p' q' r' other => ?_⟩
        -- The first record of the block has the name, and no record after it does.
        have mem : q ∈ m.recordsOf G.layout dir k := by
          rw [split]
          simp
        have mem' : q' ∈ m.recordsOf G.layout dir k' := by
          rw [other.split]
          simp
        obtain rfl : k = k' := by
          by_contra ne
          rcases Nat.lt_or_gt_of_ne ne with lt | gt
          · exact later k' q' lt ⟨other.block_lt, mem'⟩ other.named
          · exact other.later k q gt ⟨small, mem⟩ named
        have same := split.symm.trans other.split
        cases l' with
        | nil =>
          simp only [List.nil_append, List.cons.injEq] at same
          exact last q' (by rw [same.2]; simp) other.named
        | cons x l' =>
          simp only [List.nil_append, List.cons_append, List.cons.injEq] at same
          exact last q' (by rw [same.2]; simp) other.named
      · have split' : m.recordsOf G.layout dir k = l ++ p :: q :: r := by
          rw [split]
          simp
        have record : RecordIn G m dir k q := ⟨small, by rw [split]; simp⟩
        have blockEnd := shows.area_le (a := .data (m.slot dir k)) (con.dirData has isDir small).2.1
        have bounds := (con.dirBlock dir has isDir k small).chain.mem_bounds record.mem
        have inode : image.u32 (m.slot dir k * G.layout.blockSize + q) =
            (recordAt (m.block dir k) q).inode := by
          rw [← recordAt_of_recordIn shows con has isDir record]
          rfl
        simp only [List.concat_eq_append, List.getLast?_concat, Option.map_some, Exec.wp_bind,
          wp_readU32, Exec.wp_pure, inode]
        refine ⟨?_, trivial, k, l, p, q, r, ⟨has, isDir, legal, small, split', named, last, later⟩, rfl⟩
        simp only [Geometry.areaPos, Geometry.areaLen] at blockEnd
        omega
  · rintro e run not
    exact ⟨trivial, fun k l p q r found => not ⟨found.has, found.isDir⟩⟩

end Lookup

end Zaytos.Fs
