import Zaytos.Ext2.Lookup
import Zaytos.Ext2.Runs
import Zaytos.Kernel.FileCalls
import Zaytos.Kernel.ReceiveFails

set_option autoImplicit false

/-! An `open` that fails: when it has made or cut a file before. -/
namespace Zaytos.Kernel

open Exec (Wp Wlp)
open Fs (Admits Consistent Disk Ext2 Geometry Inode parentPath pathSeparator)

namespace FileCall

section Paths

variable {path parent name : List UInt8}

theorem splitParentAndName_eq (plain : pathSeparator ∉ name) :
    splitParentAndName (parent ++ pathSeparator :: name) =
      if name = [] then .err .einval else .ok (parentPath parent, name) := by
  have last : ((parent ++ pathSeparator :: name).reverse.takeWhile (· ≠ pathSeparator)).reverse =
      name := by
    have all : ∀ x ∈ name.reverse, decide (x ≠ pathSeparator) = true := by
      intro x mem
      rw [decide_eq_true_eq]
      rintro rfl
      exact plain (List.mem_reverse.mp mem)
    rw [List.reverse_append, List.reverse_cons, List.append_assoc, List.takeWhile_append_of_pos all]
    simp
  unfold splitParentAndName
  rw [last, if_neg (by simp)]
  by_cases empty : name = []
  · rw [if_pos empty, if_pos empty]
  · rw [if_neg empty, if_neg empty]
    have front : (parent ++ pathSeparator :: name).take
        ((parent ++ pathSeparator :: name).length - name.length - 1) = parent := by
      rw [List.length_append, List.length_cons, List.take_left' (by omega)]
    dsimp only
    rw [front]
    rfl

theorem splitParentAndName_ok {front : List UInt8}
    (split : splitParentAndName path = .ok (front, name)) :
    ∃ parent, path = parent ++ pathSeparator :: name ∧ pathSeparator ∉ name ∧
      front = parentPath parent := by
  by_cases mem : pathSeparator ∈ path
  · obtain ⟨parent, last, rfl, plain⟩ := Fs.exists_last_separator mem
    rw [splitParentAndName_eq plain] at split
    split at split
    · cases split
    · obtain ⟨rfl, rfl⟩ := Prod.mk.inj (Result.ok.inj split)
      exact ⟨parent, rfl, plain, rfl⟩
  · unfold splitParentAndName at split
    rw [if_pos mem] at split
    cases split

end Paths

/-- The root image of the state is `image`, which shows the contents `m`. -/
structure Mounted (G : Geometry) (base image : Bytes) (m : Disk) (fs : Ext2) (s : FileState) :
    Prop where
  root : s.root = some image
  shows : G.Shows base image m
  con : Consistent G m
  parsed : Ext2.parse image = .ok fs
  layout : fs.layout = G.layout

def setRoot (s : FileState) (image : Bytes) : FileState := { s with root := some image }

@[simp] theorem setRoot_files (s : FileState) (image : Bytes) : (setRoot s image).files = s.files :=
  rfl

section Root

variable {G : Geometry} {base image : Bytes} {m : Disk} {fs : Ext2} {s : FileState}
  (mounted : Mounted G base image m fs s)
include mounted

theorem Mounted.setRoot_self : setRoot s image = s := by
  unfold setRoot
  rw [← mounted.root]

theorem Mounted.rootFilesystem : rootFilesystem s = .ok fs s := by
  apply Exec.read_of_ok
  unfold FileState.rootImage
  rw [mounted.root, Option.getD_some, mounted.parsed]
  rfl

theorem Mounted.wlp_rootFilesystem {Q : Ext2 → FileState → Prop} {E : Errno → FileState → Prop} :
    Wlp FileCall.rootFilesystem s Q E ↔ Q fs s := by
  unfold Wlp
  rw [mounted.rootFilesystem]

theorem Mounted.withRootImageMut {α : Type} {write : Fs.Writer α} {noCopy : Errno}
    {refused : Fs.AllocError → Errno} : withRootImageMut write noCopy refused s =
      match write image with
      | .fault => .fault
      | .err e after => .err (refused e) (setRoot s after)
      | .ok a after => .ok a (setRoot s after) := by
  unfold FileCall.withRootImageMut
  rw [mounted.root]
  dsimp only
  cases write image <;> rfl

omit mounted in
theorem exists_mounted {after : Bytes} {m' : Disk} (shows' : G.Shows base after m')
    (con' : Consistent G m') : ∃ fs', Mounted G base after m' fs' (setRoot s after) := by
  obtain ⟨fs', parsed', layout', -⟩ := shows'.parsed
  exact ⟨fs', rfl, shows', con', parsed', layout'⟩

end Root

section Truncate

variable {G : Geometry} {base image : Bytes} {m : Disk} {fs : Ext2} {s : FileState} {ino : Nat}

theorem truncate_empty (con : Consistent G m) (live : m.Live G.layout ino)
    (regular : m.IsRegular ino) (empty : m.size ino = 0) : m.truncate G.layout ino 0 = m := by
  have blocks : m.fileBlocks G.layout ino = 0 := by
    unfold Disk.fileBlocks
    rw [empty]
    exact divCeil_zero G.wf.blockSize_pos
  have sectors := (con.shape ino live (.inl regular)).sectors
  rw [blocks, zero_mul] at sectors
  have same : m.resize ino (m.size ino) (m.sectors ino) = m := Fs.resize_self
  rw [empty, sectors] at same
  unfold Disk.truncate Disk.clearTail
  dsimp only
  rw [divCeil_zero G.wf.blockSize_pos, if_neg fun cond => lt_irrefl 0 cond.1, blocks,
    zero_mul]
  exact same

theorem spare_empty (empty : m.size ino = 0) :
    m.Spare G.layout ino 0 (m.fileBlocks G.layout ino) := by
  have blocks : m.fileBlocks G.layout ino = 0 := by
    unfold Disk.fileBlocks
    rw [empty]
    exact divCeil_zero G.wf.blockSize_pos
  intro g _
  rw [blocks]
  exact (m (.groupFreeBlocks g)).u16_lt 0

theorem truncateForWrite_of_not_regular {inode : Inode} (not : inode.isRegularFile = false) :
    truncateForWrite inode s = .err .erofs s := by
  unfold truncateForWrite
  exact Exec.bind_of_err (Exec.rejectIf_of (by rw [not]; rfl))

variable (mounted : Mounted G base image m fs s)
include mounted

theorem truncateForWrite_of_regular (live : m.Live G.layout ino) (regular : m.IsRegular ino) :
    (m.Spare G.layout ino 0 (m.fileBlocks G.layout ino) ∧ ∃ after,
      truncateForWrite (G.inodeIn image ino) s = .ok () (setRoot s after) ∧
        (after = image ↔ m.size ino = 0)) ∨
    (¬ m.Spare G.layout ino 0 (m.fileBlocks G.layout ino) ∧ ∃ after,
      truncateForWrite (G.inodeIn image ino) s = .err .eio (setRoot s after) ∧ after ≠ image) := by
  have con := mounted.con
  have shows := mounted.shows
  have file : (G.inodeIn image ino).isRegularFile = true := (Fs.isRegularFile_iff shows live.1).mpr regular
  have call : truncateForWrite (G.inodeIn image ino) s =
      withRootImageMut (Fs.truncateTo G.layout ino 0) .erofs (fun _ => .eio) s := by
    unfold truncateForWrite
    rw [Exec.bind_of_ok (Exec.rejectIf_of_not (by rw [file]; simp)),
      Exec.bind_of_ok mounted.rootFilesystem, mounted.layout]
    rfl
  have run := Fs.truncateTo_wp shows live.1 con.blockCounts (con.slotsUsed live (.inl regular))
    (Nat.zero_le _)
  dsimp only at run
  rw [divCeil_zero G.wf.blockSize_pos, Nat.sub_zero] at run
  rw [call, mounted.withRootImageMut]
  unfold Wp at run
  cases done : Fs.truncateTo G.layout ino 0 image with
  | fault =>
    rw [done] at run
    exact run.elim
  | ok u after =>
    rw [done] at run
    obtain ⟨spare, shows'⟩ := run
    refine .inl ⟨spare, after, rfl, ?_⟩
    constructor
    · intro same
      subst same
      by_contra nonempty
      apply shows.ne_image shows' _ rfl
      intro unchanged
      have cut : (m.truncate G.layout ino 0).size ino = 0 := Fs.size_resize (by decide)
      rw [unchanged] at cut
      exact nonempty cut
    · intro empty
      rw [truncate_empty con live regular empty] at shows'
      exact shows'.holds.unique shows.holds
  | err e after =>
    rw [done] at run
    obtain ⟨spare, -, m', k, shows', used, cleared⟩ := run
    refine .inr ⟨spare, after, rfl, shows.ne_image shows' ?_⟩
    intro same
    rw [same] at cleared
    exact used cleared

end Truncate

section Create

/-- The directory that the path names takes a file with its last name, and there is an inode for
it. -/
def Creates (G : Geometry) (m : Disk) (fs : Ext2) (path : List UInt8) : Prop :=
  ∃ parent name d, splitParentAndName path = .ok (parent, name) ∧ fs.lookup parent = .ok d ∧
    d.isDirectory = true ∧ Admits G m d.number name ∧ G.layout.inodesCount + 1 < 2 ^ 32 ∧
    ∃ ino, m.Open G.layout ino

variable {G : Geometry} {base image : Bytes} {m : Disk} {fs : Ext2} {s : FileState}
  {path : List UInt8} (mounted : Mounted G base image m fs s)

/-- The state after the root image became `after`, with a new empty file `ino` in it. -/
structure Made (G : Geometry) (base image : Bytes) (s : FileState) (after : Bytes) (ino : Nat) :
    Prop where
  mounted : ∃ m' fs', Mounted G base after m' fs' (setRoot s after) ∧ m'.Live G.layout ino ∧
    m'.IsRegular ino ∧ m'.size ino = 0
  changed : after ≠ image

include mounted

theorem createAndLookup_eq {parent name : List UInt8} {d : Inode}
    (split : splitParentAndName path = .ok (parent, name)) (found : fs.lookup parent = .ok d)
    (dir : d.isDirectory = true) : createAndLookup path s =
      (withRootImageMut (Fs.createFile G.layout d.number name) .eio errnoForAlloc >>= fun _ =>
        rootFilesystem >>= fun fs =>
          Exec.read fun _ => (fs.lookup path).mapErr errnoForExt2) s := by
  unfold createAndLookup
  rw [Exec.bind_of_ok (Exec.read_of_ok (f := fun _ => splitParentAndName path) split)]
  dsimp only
  rw [Exec.bind_of_ok mounted.rootFilesystem, Exec.bind_of_ok mounted.rootFilesystem,
    Exec.bind_of_ok (Exec.read_of_ok (f := fun _ => (fs.lookup parent).mapErr errnoForExt2)
      (by rw [found]; rfl)),
    Exec.bind_of_ok (Exec.rejectIf_of_not (by rw [dir]; simp)), mounted.layout]

theorem createAndLookup_of_creates (missing : fs.lookup path = .err .notFound)
    (creates : Creates G m fs path) : ∃ after ino, Made G base image s after ino ∧
      createAndLookup path s = .ok (G.inodeIn after ino) (setRoot s after) := by
  obtain ⟨front, name, d, split, found, dir, admits, small, free⟩ := creates
  obtain ⟨first, openFirst⟩ := free
  have con := mounted.con
  have shows := mounted.shows
  have run := Fs.createFile_wp shows con d.number name
    (Fs.allocateInode_total shows con.inodeCounts small openFirst)
  rw [createAndLookup_eq mounted split found dir]
  unfold Wp at run
  cases done : Fs.createFile G.layout d.number name image with
  | fault =>
    rw [done] at run
    exact run.elim
  | err e after =>
    rw [done] at run
    exact absurd ⟨admits, first, openFirst⟩ run.2
  | ok ino after =>
    rw [done] at run
    obtain ⟨isFirst, -, k, p, room, shows'⟩ := run
    have con' := Fs.addFile_consistent Fs.direntTypeRegular con isFirst.1 admits room
    obtain ⟨fs', mounted'⟩ := exists_mounted (s := s) shows' con'
    have live : (m.addFile G.layout ino (m.slot d.number k) p name Fs.direntTypeRegular).Live
        G.layout ino :=
      (Fs.addFile_live isFirst.1.has).mpr (.inl rfl)
    obtain ⟨parent, rfl, plain, rfl⟩ := splitParentAndName_ok split
    have there := Fs.lookup_addFile con isFirst.1 admits room shows shows' mounted.parsed
      mounted.layout mounted'.parsed mounted'.layout plain found dir rfl missing
    refine ⟨after, ino, ⟨⟨_, fs', mounted', live, Fs.addFile_regular, Fs.addFile_size⟩, ?_⟩, ?_⟩
    · apply shows.ne_image shows'
      intro same
      have before := isFirst.1.clear
      have now := live.2
      rw [show m.addFile G.layout ino (m.slot d.number k) p name Fs.direntTypeRegular = m from same,
        before] at now
      cases now
    · have made : withRootImageMut (Fs.createFile G.layout d.number name) .eio errnoForAlloc s =
          .ok ino (setRoot s after) := by
        rw [mounted.withRootImageMut, done]
      rw [Exec.bind_of_ok made, Exec.bind_of_ok mounted'.rootFilesystem]
      exact Exec.read_of_ok (by rw [there]; rfl)

theorem createAndLookup_of_not_creates (not : ¬ Creates G m fs path) :
    Wlp (createAndLookup path) s (fun _ _ => False) fun _ s' => s' = s := by
  have con := mounted.con
  have shows := mounted.shows
  unfold createAndLookup
  rw [Exec.wlp_bind, Exec.wlp_read]
  apply And.intro _ fun _ _ => rfl
  rintro ⟨front, name⟩ split
  dsimp only
  rw [Exec.wlp_bind, mounted.wlp_rootFilesystem, Exec.wlp_bind, mounted.wlp_rootFilesystem,
    mounted.layout, Exec.wlp_bind, Exec.wlp_read]
  apply And.intro _ fun _ _ => rfl
  intro d found
  rw [Exec.wlp_bind, Exec.wlp_rejectIf]
  apply And.intro fun _ => rfl
  intro dir
  have lookup : fs.lookup front = .ok d := by
    cases result : fs.lookup front with
    | fault =>
      rw [result] at found
      cases found
    | err e =>
      rw [result] at found
      cases found
    | ok d' =>
      rw [result] at found
      rw [Result.ok.inj found]
  have stuck : ∀ ino after, Fs.createFile G.layout d.number name image ≠ .ok ino after := by
    intro ino after done
    by_cases total : Exec.Total (Fs.allocateInode G.layout) image
    · obtain ⟨first, admits, -⟩ := (Fs.createFile_wlp shows con).of_ok done
      apply not
      exact ⟨front, name, d, split, lookup, by simpa using dir, admits,
        Fs.allocateInode_small shows total, ino, first.1⟩
    · exact (Fs.createFile_of_not_total shows con total).of_ok done
  rw [Exec.wlp_bind]
  unfold Wlp
  rw [mounted.withRootImageMut]
  cases done : Fs.createFile G.layout d.number name image with
  | fault => trivial
  | ok ino after => exact absurd done (stuck ino after)
  | err e after =>
    obtain rfl : after = image := (Fs.createFile_wlp shows con).of_err done
    exact mounted.setRoot_self

end Create

section Open

variable {G : Geometry} {base image : Bytes} {m : Disk} {fs : Ext2} {s : FileState}
  {path : List UInt8} {flags : Nat} (mounted : Mounted G base image m fs s)

def MayCreate (G : Geometry) (m : Disk) (fs : Ext2) (path : List UInt8) (flags : Nat) : Prop :=
  writeForm flags = true ∧ flags &&& oCreat ≠ 0 ∧ fs.lookup path = .err .notFound ∧
    Creates G m fs path

/-- The file at the path has contents that are cut, and the call fails while it cuts them or
after. -/
def CutsInVain (G : Geometry) (m : Disk) (fs : Ext2) (files : FileTable) (path : List UInt8)
    (flags : Nat) : Prop :=
  writeForm flags = true ∧ ∃ i, fs.lookup path = .ok i ∧ i.isRegularFile = true ∧
    m.size i.number ≠ 0 ∧ (files.HasRoom →
      ¬ m.Spare G.layout i.number 0 (m.fileBlocks G.layout i.number))

/-- The call makes a file that gets no descriptor, or cuts one that gets none. -/
def Wastes (G : Geometry) (m : Disk) (fs : Ext2) (files : FileTable) (path : List UInt8)
    (flags : Nat) : Prop :=
  (¬ files.HasRoom ∧ MayCreate G m fs path flags) ∨ CutsInVain G m fs files path flags

def Harmless {α : Type} (call : FileCall α) (s : FileState) : Prop :=
  Wlp call s (fun _ _ => True) fun _ s' => s' = s

theorem insert_of_room {file : File} (room : s.files.HasRoom) :
    ∃ fd s', insert file s = .ok fd s' := by
  unfold insert
  rcases s.files.insert_cases file with ⟨-, fd, t, done⟩ | ⟨full, -⟩
  · rw [done]
    exact ⟨fd, _, rfl⟩
  · exact absurd room full

theorem insert_of_full {file : File} (full : ¬ s.files.HasRoom) :
    insert file s = .err .emfile s := by
  unfold insert
  rcases s.files.insert_cases file with ⟨room, -⟩ | ⟨-, error⟩
  · exact absurd room full
  · rw [error]
    rfl

theorem insert_harmless (file : File) (s : FileState) : Harmless (insert file) s := by
  unfold Harmless Wlp
  by_cases room : s.files.HasRoom
  · obtain ⟨fd, s', done⟩ := insert_of_room room
    rw [done]
    trivial
  · rw [insert_of_full room]

include mounted

theorem lookupOrCreate_of_found {i : Inode} (found : fs.lookup path = .ok i) :
    lookupOrCreate path flags s = .ok i s := by
  unfold lookupOrCreate
  rw [Exec.bind_of_ok mounted.rootFilesystem, found]
  rfl

theorem lookupOrCreate_of_absent (flags : Nat) (absent : fs.lookup path = .err .notFound) :
    lookupOrCreate path flags s =
      if writeForm flags ∧ flags &&& oCreat ≠ 0 then createAndLookup path s else .err .enoent s := by
  unfold lookupOrCreate
  rw [Exec.bind_of_ok mounted.rootFilesystem, absent]
  dsimp only
  split <;> rfl

theorem lookupOrCreate_of_failed (missing : ∀ i, fs.lookup path ≠ .ok i)
    (present : fs.lookup path ≠ .err .notFound) :
    Wlp (lookupOrCreate path flags) s (fun _ _ => False) fun _ s' => s' = s := by
  unfold Wlp lookupOrCreate
  rw [Exec.bind_of_ok mounted.rootFilesystem]
  cases result : fs.lookup path with
  | ok i => exact absurd result (missing i)
  | fault => trivial
  | err e => cases e <;> first | rfl | exact absurd result present

theorem lookupOrCreate_of_missing (missing : ∀ i, fs.lookup path ≠ .ok i) :
    (MayCreate G m fs path flags ∧ ∃ after ino, Made G base image s after ino ∧
      lookupOrCreate path flags s = .ok (G.inodeIn after ino) (setRoot s after)) ∨
    (¬ MayCreate G m fs path flags ∧
      Wlp (lookupOrCreate path flags) s (fun _ _ => False) fun _ s' => s' = s) := by
  by_cases absent : fs.lookup path = .err .notFound
  · have call := lookupOrCreate_of_absent mounted flags absent
    by_cases asked : writeForm flags = true ∧ flags &&& oCreat ≠ 0
    · rw [if_pos asked] at call
      by_cases creates : Creates G m fs path
      · obtain ⟨after, ino, made, done⟩ := createAndLookup_of_creates mounted absent creates
        exact .inl ⟨⟨asked.1, asked.2, absent, creates⟩, after, ino, made, call.trans done⟩
      · apply Or.inr
        apply And.intro fun may => creates may.2.2.2
        unfold Wlp
        rw [call]
        exact createAndLookup_of_not_creates mounted creates
    · rw [if_neg asked] at call
      apply Or.inr
      apply And.intro fun may => asked ⟨may.1, may.2.1⟩
      unfold Wlp
      rw [call]
  · exact .inr ⟨fun may => absent may.2.2.1,
      lookupOrCreate_of_failed mounted missing absent⟩

omit mounted in
theorem sysOpen_of_writeForm (form : writeForm flags = true) :
    sysOpen (.ok path) flags s = (lookupOrCreate path flags >>= fun inode =>
      truncateForWrite inode >>= fun _ => insert (.regular inode 0 true)) s := by
  unfold sysOpen
  rw [Exec.bind_of_ok (Exec.rejectIf_of_not fun both => by simp [form] at both)]
  dsimp only
  simp only [form, if_true]

omit mounted in
theorem harmless_iff {α : Type} {call : FileCall α} :
    Harmless call s ↔ ∀ e s', call s = .err e s' → s' = s := by
  unfold Harmless Wlp
  constructor
  · intro keeps e s' failed
    rw [failed] at keeps
    exact keeps
  · intro keeps
    cases run : call s with
    | fault => trivial
    | ok a t => trivial
    | err e t => exact keeps e t run

theorem sysOpen_of_not_writeForm (form : writeForm flags = false) :
    Harmless (sysOpen (.ok path) flags) s := by
  unfold sysOpen Harmless
  rw [Exec.wlp_bind, Exec.wlp_rejectIf]
  apply And.intro fun _ => rfl
  intro _
  dsimp only
  rw [Exec.wlp_bind]
  have rest : ∀ i, Harmless (insert (.regular i 0 false)) s := fun i => insert_harmless _ s
  by_cases found : ∃ i, fs.lookup path = .ok i
  · obtain ⟨i, found⟩ := found
    unfold Wlp
    rw [lookupOrCreate_of_found mounted found]
    simp only [form]
    exact rest i
  · have missing : ∀ i, fs.lookup path ≠ .ok i := fun i found' => found ⟨i, found'⟩
    rcases lookupOrCreate_of_missing mounted missing with ⟨may, -⟩ | ⟨-, stops⟩
    · rw [may.1] at form
      cases form
    · exact stops.mono (fun _ _ _ h => h.elim) (fun _ _ _ h => h)

omit mounted in
theorem setRoot_eq_iff {after : Bytes} (mounted : Mounted G base image m fs s) :
    setRoot s after = s ↔ after = image := by
  constructor
  · intro same
    have root := mounted.root
    rw [← same] at root
    exact Option.some.inj root
  · rintro rfl
    exact mounted.setRoot_self

theorem cut_harmless_iff {i : Inode} (form : writeForm flags = true)
    (found : fs.lookup path = .ok i) :
    Harmless (truncateForWrite i >>= fun _ => insert (.regular i 0 true)) s ↔
      ¬ CutsInVain G m fs s.files path flags := by
  by_cases file : i.isRegularFile = true
  · have notDir : i.isDirectory = false := by
      unfold Inode.isRegularFile at file
      unfold Inode.isDirectory
      rw [eq_of_beq file]
      decide
    obtain ⟨ino, rfl, live⟩ :=
      mounted.con.lookup_live mounted.shows mounted.parsed mounted.layout found notDir
    have regular := (Fs.isRegularFile_iff mounted.shows live.1).mp file
    have cuts : CutsInVain G m fs s.files path flags ↔ m.size ino ≠ 0 ∧ (s.files.HasRoom →
        ¬ m.Spare G.layout ino 0 (m.fileBlocks G.layout ino)) := by
      constructor
      · rintro ⟨-, i, found', -, size, stuck⟩
        rw [found] at found'
        obtain rfl := Result.ok.inj found'
        exact ⟨size, stuck⟩
      · intro vain
        exact ⟨form, _, found, file, vain⟩
    unfold Harmless
    rw [cuts, Exec.wlp_bind]
    unfold Wlp
    rcases truncateForWrite_of_regular mounted live regular with
      ⟨spare, after, done, same⟩ | ⟨stuck, after, failed, changed⟩
    · rw [done]
      by_cases room : (setRoot s after).files.HasRoom
      · obtain ⟨fd, s', inserted⟩ := insert_of_room room
          
        dsimp only
        rw [inserted]
        exact iff_of_true trivial fun vain => vain.2 room spare
      · dsimp only
        rw [insert_of_full room]
        dsimp only
        rw [setRoot_eq_iff mounted, same, not_and_or, not_not]
        exact ⟨.inl, fun either => either.resolve_right fun vain => vain fun full => absurd full room⟩
    · rw [failed]
      have size : m.size ino ≠ 0 := fun empty => stuck (spare_empty empty)
      exact iff_of_false (fun same => changed ((setRoot_eq_iff mounted).mp same))
        fun vain => vain ⟨size, fun _ => stuck⟩
  · have call := truncateForWrite_of_not_regular (s := s) (Bool.eq_false_of_not_eq_true file)
    have none : ¬ CutsInVain G m fs s.files path flags := by
      rintro ⟨-, i', found', regular, -⟩
      rw [found] at found'
      obtain rfl := Result.ok.inj found'
      exact file regular
    unfold Harmless
    rw [Exec.wlp_bind]
    unfold Wlp
    rw [call]
    exact iff_of_true rfl none

omit mounted in
theorem made_harmless_iff {after : Bytes} {ino : Nat} (mounted : Mounted G base image m fs s)
    (made : Made G base image s after ino) :
    Wlp (truncateForWrite (G.inodeIn after ino) >>= fun _ =>
      insert (.regular (G.inodeIn after ino) 0 true)) (setRoot s after) (fun _ _ => True)
        (fun _ s' => s' = s) ↔ s.files.HasRoom := by
  obtain ⟨m', fs', mounted', live, regular, empty⟩ := made.mounted
  rw [Exec.wlp_bind]
  unfold Wlp
  rcases truncateForWrite_of_regular mounted' live regular with
    ⟨-, last, done, same⟩ | ⟨stuck, -⟩
  · obtain rfl := same.mpr empty
    rw [done, mounted'.setRoot_self]
    dsimp only
    by_cases room : (setRoot s last).files.HasRoom
    · obtain ⟨fd, s', inserted⟩ := insert_of_room room
        
      rw [inserted]
      exact iff_of_true trivial room
    · rw [insert_of_full room]
      exact iff_of_false (fun same => made.changed ((setRoot_eq_iff mounted).mp same)) room
  · exact absurd (spare_empty empty) stuck

theorem sysOpen_harmless_iff :
    Harmless (sysOpen (.ok path) flags) s ↔ ¬ Wastes G m fs s.files path flags := by
  unfold Wastes
  by_cases form : writeForm flags = true
  · unfold Harmless Wlp
    rw [sysOpen_of_writeForm form]
    by_cases found : ∃ i, fs.lookup path = .ok i
    · obtain ⟨i, found⟩ := found
      rw [Exec.bind_of_ok (lookupOrCreate_of_found mounted found)]
      have may : ¬ MayCreate G m fs path flags := by
        intro may
        rw [may.2.2.1] at found
        cases found
      rw [not_or, not_and_or, iff_true_intro may, or_true, true_and]
      exact cut_harmless_iff mounted form found
    · have missing : ∀ i, fs.lookup path ≠ .ok i := fun i found' => found ⟨i, found'⟩
      have cuts : ¬ CutsInVain G m fs s.files path flags :=
        fun ⟨_, i, found', _⟩ => missing i found'
      rw [or_iff_left cuts, not_and_or, not_not]
      rcases lookupOrCreate_of_missing mounted missing with
        ⟨may, after, ino, made, done⟩ | ⟨may, stops⟩
      · rw [Exec.bind_of_ok done, iff_false_intro (not_not.mpr may), or_false]
        exact made_harmless_iff mounted made
      · refine iff_of_true ?_ (.inr may)
        have whole := (Exec.wlp_bind _ (fun i => truncateForWrite i >>= fun _ =>
          insert (.regular i 0 true)) s (fun _ _ => True) (fun _ s' => s' = s)).mpr
          (stops.mono (fun _ _ _ h => h.elim) fun _ _ _ h => h)
        exact whole
  · have plain : writeForm flags = false := Bool.eq_false_of_not_eq_true form
    refine iff_of_true (sysOpen_of_not_writeForm mounted plain) ?_
    rintro (⟨-, may⟩ | cuts)
    · exact form may.1
    · exact form cuts.1

end Open

/-- An `open` on a consistent image that fails has changed nothing, unless it has made a file
that gets no descriptor, or has cut one that gets none. -/
theorem open_changes_nothing_iff {G : Geometry} {image : Bytes} {m : Disk} {fs : Ext2}
    {s : FileState} (describes : G.Describes image) (contents : G.carving.view image = m)
    (con : Consistent G m) (parsed : Ext2.parse image = .ok fs) (root : s.root = some image)
    (path : Except Errno (List UInt8)) (flags : Nat) :
    (∀ errno s', sysOpen path flags s = .err errno s' → s' = s) ↔
      ¬ ∃ bytes, path = .ok bytes ∧ Wastes G m fs s.files bytes flags := by
  have shows := describes.shows
  rw [contents] at shows
  obtain ⟨fs', parsed', layout⟩ := describes.parsed
  rw [parsed] at parsed'
  obtain rfl := Result.ok.inj parsed'
  have mounted : Mounted G image image m fs s := ⟨root, shows, con, parsed, layout⟩
  rw [← harmless_iff]
  cases path with
  | ok bytes =>
    rw [sysOpen_harmless_iff mounted]
    simp
  | error e =>
    apply iff_of_true _ (by simp)
    unfold sysOpen Harmless
    rw [Exec.wlp_bind, Exec.wlp_rejectIf]
    exact ⟨fun _ => rfl, fun _ => rfl⟩

def fullTable : FileTable := ⟨fun _ => some (.terminal false)⟩

/-- Reading the root directory with a full table. -/
theorem open_changes_nothing_root : ∃ fs, Ext2.parse (Fs.smallImage 0) = .ok fs ∧
    ∀ errno s', sysOpen (.ok [47]) oRdonly ⟨some (Fs.smallImage 0), fullTable⟩ = .err errno s' →
      s' = ⟨some (Fs.smallImage 0), fullTable⟩ := by
  obtain ⟨fs, parsed, -⟩ := (Fs.smallImage_describes 0).parsed
  refine ⟨fs, parsed, ?_⟩
  apply (open_changes_nothing_iff (Fs.smallImage_describes 0) rfl (Fs.smallImage_view 0) parsed rfl
    (.ok [47]) oRdonly).mpr
  rintro ⟨bytes, -, ⟨-, may⟩ | cuts⟩
  · exact absurd may.1 (by decide)
  · exact absurd cuts.1 (by decide)

/-- With a full table the file is made, and the call fails. -/
theorem open_leaves_file : Fs.ConsistentImage (Fs.smallImage 0) ∧ ∃ s', sysOpen (.ok [47, 97])
    (oWronly ||| oCreat ||| oTrunc)
    ⟨some (Fs.smallImage 0), fullTable⟩ = .err .emfile s' ∧
      s' ≠ ⟨some (Fs.smallImage 0), fullTable⟩ := by
  have made : (match sysOpen (.ok [47, 97]) (oWronly ||| oCreat ||| oTrunc)
      ⟨some (Fs.smallImage 0), fullTable⟩ with
    | .err .emfile s' => decide (s'.rootImage.u16 6400 ≠ (Fs.smallImage 0).u16 6400)
    | _ => false) = true := by decide +kernel
  split at made
  · rename_i s' run
    refine ⟨Fs.smallImage_consistent 0, s', run, ?_⟩
    rintro rfl
    exact of_decide_eq_true made rfl
  · cases made

end FileCall

end Zaytos.Kernel
