import Zaytos.Ext2.RemoveKeeps

set_option autoImplicit false

/-! Runs of the writer: sequences of calls, each on the image the one before left behind,
whether it returned or refused. -/
namespace Zaytos.Fs

open Writer
open Exec (Wp Wlp)

inductive Op where
  | createFile (dir : Nat) (name : List UInt8)
  | appendToFile (ino : Nat) (data : List UInt8)
  | truncateTo (ino target : Nat)
  | unlinkFile (dir : Nat) (name : List UInt8)
  | createDirectory (parent : Nat) (name : List UInt8)
  | removeDirectory (parent : Nat) (name : List UInt8)

namespace Op

def exec (L : Layout) (image : Bytes) : Op → Option Bytes
  | .createFile dir name => (Fs.createFile L dir name image).state
  | .appendToFile ino data => (Fs.appendToFile L ino data image).state
  | .truncateTo ino target => (Fs.truncateTo L ino target image).state
  | .unlinkFile dir name => (Fs.unlinkFile L dir name image).state
  | .createDirectory parent name => (Fs.createDirectory L parent name image).state
  | .removeDirectory parent name => (Fs.removeDirectory L parent name image).state

/-- The call on an image: its layout is the one `parse` finds. -/
def step (op : Op) (image : Bytes) : Option Bytes :=
  match Ext2.parse image with
  | .ok fs => op.exec fs.layout image
  | _ => none

/-- When a call cannot give up half way, and what it removes is named only where it is
looked for. -/
def Safe (G : Geometry) (m : Disk) : Op → Prop
  | .createFile _ _ => True
  | .appendToFile ino data =>
    m.Live G.layout ino ∧ m.IsRegular ino ∧
      (divCeil (m.size ino + data.length) G.layout.blockSize ≤
          min directBlockCount (m.fileBlocks G.layout ino + m.freeBlocks) ∨
        m.fileBlocks G.layout ino = directBlockCount ∨ m.freeBlocks = 0)
  | .truncateTo ino target =>
    m.Live G.layout ino ∧ m.IsRegular ino ∧
      (target ≤ m.size ino → m.Spare G.layout ino (divCeil target G.layout.blockSize)
        (m.fileBlocks G.layout ino - divCeil target G.layout.blockSize))
  | .unlinkFile dir name =>
    ∀ k l p q r ino, Found G m dir name k l p q r → ino = (recordAt (m.block dir k) q).inode →
      m.IsRegular ino → m.links ino = 1 ∧ m.Erasable G.layout ino ∧
        (recordAt (m.block dir k) p).recLen + (recordAt (m.block dir k) q).recLen < 2 ^ 16
  | .createDirectory parent name =>
    Admits G m parent name → ∀ ino, m.FirstOpen G.layout ino → ¬ Cramped G m parent ino
  | .removeDirectory parent name =>
    ∀ k l p q r ino, Found G m parent name k l p q r →
      ino = (recordAt (m.block parent k) q).inode → m.IsDir ino → m.Empty G.layout ino →
      Removable G m ino parent k p q ∧ ∀ i, m.refsFrom G.layout i ino =
        (if i = parent then 1 else 0) + if i = ino then m.links ino - 1 else 0

end Op

section Step

variable {G : Geometry} {base image after : Bytes} {m : Disk} (shows : G.Shows base image m)
  (con : Consistent G m)
include shows con

theorem createFile_keeps {dir : Nat} {name : List UInt8} :
    Wlp (createFile G.layout dir name) image (fun _ => ConsistentImage) fun _ => ConsistentImage := by
  refine (createFile_wlp shows con).mono ?_ ?_
  · rintro ino after - ⟨first, admits, k, p, room, shows'⟩
    exact shows'.consistentImage (addFile_consistent _ con first.1 admits room)
  · rintro _ _ - rfl
    exact shows.consistentImage con

theorem appendToFile_keeps {ino : Nat} {data : List UInt8} (safe : (Op.appendToFile ino data).Safe G m) :
    Wlp (appendToFile G.layout ino data) image (fun _ => ConsistentImage) fun _ => ConsistentImage := by
  obtain ⟨live, regular, room⟩ := safe
  have few := (con.shape ino live (.inl regular)).blocks_le
  have tail := con.tail_slot live (.inl regular)
  refine (appendToFile_wp shows (con.growable live (.inl regular)) con.blockCounts few tail
    data).wlp.mono
    ?_ ?_
  · rintro _ after - ⟨m', grown, shows'⟩
    exact shows'.consistentImage ((grown.fileChange con live regular rfl).consistent con)
  · rintro e after - ⟨-, m', n, shows', grown, short, full⟩
    have none : n = m.fileBlocks G.layout ino := by
      have le := grown.le
      have most := grown.few
      have free := grown.free
      rcases room with room | room | room <;> rcases full with full | full <;> omega
    exact shows'.consistentImage ((grown.fileChange_of_none con live regular none).consistent con)

theorem truncateTo_keeps {ino target : Nat} (safe : (Op.truncateTo ino target).Safe G m) :
    Wlp (truncateTo G.layout ino target) image (fun _ => ConsistentImage) fun _ => ConsistentImage := by
  obtain ⟨live, regular, spare⟩ := safe
  by_cases within : target ≤ m.size ino
  · refine (truncateTo_wp shows live.1 con.blockCounts (con.slotsUsed live (.inl regular))
      within).wlp.mono ?_ ?_
    · rintro _ after - ⟨-, shows'⟩
      exact shows'.consistentImage
        ((truncate_fileChange con live within regular (spare within)).consistent con)
    · rintro e after - ⟨notSpare, -⟩
      exact absurd (spare within) notSpare
  · unfold Wlp
    rw [truncateTo_beyond shows live.1 (Nat.lt_of_not_le within)]
    exact shows.consistentImage con

theorem unlinkFile_keeps {dir : Nat} {name : List UInt8} (safe : (Op.unlinkFile dir name).Safe G m) :
    Wlp (unlinkFile G.layout dir name) image (fun _ => ConsistentImage) fun _ => ConsistentImage := by
  refine (unlinkFile_wp shows con _ _).wlp.mono ?_ ?_
  · rintro _ after - ⟨k, l, p, q, r, ino, found, named, regular, erasable, fits, shows'⟩
    exact shows'.consistentImage (unlinkFile_consistent con found named regular
      (safe k l p q r ino found named regular).1 erasable fits)
  · rintro e after - (⟨rfl, -⟩ | ⟨k, l, p, q, r, m', found, regular, stuck, -⟩)
    · exact shows.consistentImage con
    · exact absurd (safe k l p q r _ found rfl regular).2 stuck

theorem createDirectory_keeps {parent : Nat} {name : List UInt8}
    (safe : (Op.createDirectory parent name).Safe G m) :
    Wlp (createDirectory G.layout parent name) image (fun _ => ConsistentImage)
      fun _ => ConsistentImage := by
  refine (createDirectory_wlp shows con).mono ?_ ?_
  · rintro ino after - ⟨block, k, p, ready, shows'⟩
    exact shows'.consistentImage (createDirectory_consistent con ready)
  · rintro e after - (⟨rfl, -⟩ | ⟨-, admits, ino, m', first, cramped, -⟩)
    · exact shows.consistentImage con
    · exact absurd cramped (safe admits ino first)

theorem removeDirectory_keeps {parent : Nat} {name : List UInt8}
    (safe : (Op.removeDirectory parent name).Safe G m) :
    Wlp (removeDirectory G.layout parent name) image (fun _ => ConsistentImage)
      fun _ => ConsistentImage := by
  refine (removeDirectory_wp shows con _ _).wlp.mono ?_ ?_
  · rintro _ after - ⟨k, l, p, q, r, ino, found, named, isDir, empty, ready, shows'⟩
    exact shows'.consistentImage (removeDirectory_consistent con found named isDir
      (safe k l p q r ino found named isDir empty).2 ready)
  · rintro e after - (⟨rfl, -⟩ | ⟨k, l, p, q, r, m', found, isDir, empty, stuck, -⟩)
    · exact shows.consistentImage con
    · exact absurd (safe k l p q r _ found rfl isDir empty).1 stuck

end Step

theorem Geometry.Describes.shows {G : Geometry} {image : Bytes} (describes : G.Describes image) :
    G.Shows image image (G.carving.view image) := ⟨describes, .self image⟩

namespace Op

def SafeOn (op : Op) (image : Bytes) : Prop :=
  ∀ G : Geometry, G.Describes image → op.Safe G (G.carving.view image)

theorem step_consistent {op : Op} {image after : Bytes} (con : ConsistentImage image)
    (safe : op.SafeOn image) (step : op.step image = some after) : ConsistentImage after := by
  obtain ⟨G, describes, con⟩ := con
  have shows := describes.shows
  have safe := safe G describes
  obtain ⟨fs, parsed, layout⟩ := describes.parsed
  unfold Op.step at step
  rw [parsed] at step
  simp only [layout] at step
  cases op with
  | createFile dir name => exact (createFile_keeps shows con).of_state step
  | appendToFile ino data => exact (appendToFile_keeps shows con safe).of_state step
  | truncateTo ino target => exact (truncateTo_keeps shows con safe).of_state step
  | unlinkFile dir name => exact (unlinkFile_keeps shows con safe).of_state step
  | createDirectory parent name => exact (createDirectory_keeps shows con safe).of_state step
  | removeDirectory parent name => exact (removeDirectory_keeps shows con safe).of_state step

def run : List Op → Bytes → Option Bytes
  | [], image => some image
  | op :: ops, image => (op.step image).bind (run ops)

end Op

/-- The calls lead from `image` to `after`, and each is safe on the image it finds. -/
inductive SafeRun : Bytes → List Op → Bytes → Prop
  | nil (image : Bytes) : SafeRun image [] image
  | cons {image middle after : Bytes} {op : Op} {ops : List Op} (safe : op.SafeOn image)
      (step : op.step image = some middle) (rest : SafeRun middle ops after) :
      SafeRun image (op :: ops) after

theorem ConsistentImage.empty_slot {image : Bytes} {L : Layout}
    (con : ConsistentImage image) (ino : Nat) (parses : parsesTo image L = true) (has : L.HasInode ino)
    (used : image.bit (image.u32 (L.descriptorPos (L.inodeGroup ino) + 4) * L.blockSize +
      L.inodeIndex ino / 8) (L.inodeIndex ino % 8) = true)
    (regular : formatOf (image.u16 (image.u32 (L.descriptorPos (L.inodeGroup ino) + 8) * L.blockSize +
      L.inodeIndex ino * L.inodeSize)) = modeRegular)
    (empty : image.u32 (image.u32 (L.descriptorPos (L.inodeGroup ino) + 8) * L.blockSize +
      L.inodeIndex ino * L.inodeSize + 4) = 0) :
    image.u32 (image.u32 (L.descriptorPos (L.inodeGroup ino) + 8) * L.blockSize +
      L.inodeIndex ino * L.inodeSize + 40) = 0 := by
  obtain ⟨G, describes, con⟩ := con
  have shows := describes.shows
  obtain ⟨m, contents⟩ : ∃ m : Disk, G.carving.view image = m := ⟨_, rfl⟩
  rw [contents] at con shows
  obtain ⟨fs, parsed, rfl⟩ := exists_of_parsesTo parses
  obtain ⟨fs', parsed', layout⟩ := describes.parsed
  obtain rfl : fs = fs' := Result.ok.inj (parsed.symm.trans parsed')
  rw [layout] at has used regular empty ⊢
  rw [shows.inodeBitmap has.group_lt] at used
  rw [shows.inodeTable has.group_lt] at regular empty ⊢
  have sizeGe := G.wf.inodeSize_ge_128
  have inBitmap : G.layout.inodeIndex ino / 8 < G.areaLen (.inodeBitmap (G.layout.inodeGroup ino)) := by
    have := Layout.inodeIndex_lt G.wf has
    have pos : 0 < 8 := by decide
    simp only [Geometry.areaLen, divCeil]
    omega
  have live : m.Live G.layout ino := by
    refine ⟨has, ?_⟩
    unfold Disk.inodeUsed Disk.bitOf Bytes.bit
    rw [← shows.get (a := .inodeBitmap _) has.group_lt inBitmap]
    exact used
  have isRegular : m.IsRegular ino := by
    unfold Disk.IsRegular
    rw [← mode_eq shows has]
    exact regular
  have size : m.size ino = 0 := (size_eq shows has).symm.trans empty
  have shape := con.shape ino live (.inl isRegular)
  have slot := slot_eq shows has (k := 0) (by decide)
  have noBlocks : m.fileBlocks G.layout ino = 0 := by
    unfold Disk.fileBlocks
    rw [size, divCeil_zero G.wf.blockSize_pos]
  have := (shape.slot_iff 0 (by decide)).not
  rw [noBlocks] at this
  exact slot.trans (not_not.mp (this.mpr (by decide)))

end Zaytos.Fs

/-! Calls that refuse: when the image is still as it was. -/
namespace Zaytos.Fs

open Exec (Wp Wlp)

/-- What lets `create_directory` give up with an inode it has already taken: everything is
there for it but a block or room in a count. -/
def Strands (G : Geometry) (m : Disk) (parent : Nat) (name : List UInt8) : Prop :=
  G.layout.inodesCount + 1 < 2 ^ 32 ∧ Admits G m parent name ∧
    ∃ ino, m.FirstOpen G.layout ino ∧ Cramped G m parent ino

/-- What lets `unlink_file` give up half way: a count or a record length that would leave its
type. -/
def UnlinkSticks (G : Geometry) (m : Disk) (dir : Nat) (name : List UInt8) : Prop :=
  ∃ k l p q r, Found G m dir name k l p q r ∧ m.IsRegular (recordAt (m.block dir k) q).inode ∧
    ¬ (m.Erasable G.layout (recordAt (m.block dir k) q).inode ∧
      (recordAt (m.block dir k) p).recLen + (recordAt (m.block dir k) q).recLen < 2 ^ 16)

/-- What lets `remove_directory` give up half way: the same, a directory that is its own
parent, or a parent without links. -/
def RemoveSticks (G : Geometry) (m : Disk) (parent : Nat) (name : List UInt8) : Prop :=
  ∃ k l p q r, Found G m parent name k l p q r ∧ m.IsDir (recordAt (m.block parent k) q).inode ∧
    m.Empty G.layout (recordAt (m.block parent k) q).inode ∧
    ¬ Removable G m (recordAt (m.block parent k) q).inode parent k p q

def RefusesCleanly {α : Type} (call : Writer α) (image : Bytes) : Prop :=
  ∀ e after, call image = .err e after → after = image

section Refusals

variable {G : Geometry} {base image : Bytes} {m : Disk} (shows : G.Shows base image m)
  (con : Consistent G m)
include shows con

theorem createFile_refuses {dir : Nat} {name : List UInt8} :
    RefusesCleanly (createFile G.layout dir name) image :=
  fun _ _ run => (createFile_wlp shows con).of_err run

theorem createDirectory_refuses {parent : Nat} {name : List UInt8} :
    RefusesCleanly (createDirectory G.layout parent name) image ↔ ¬ Strands G m parent name := by
  constructor
  · rintro clean ⟨small, admits, ino, first, cramped⟩
    have total := allocateInode_total shows con.inodeCounts small first.1
    have spec := createDirectory_wp shows con parent name total
    have unique : ∀ i, m.FirstOpen G.layout i → i = ino := fun i other =>
      le_antisymm (other.2 ino first.1) (first.2 i other.1)
    unfold Wp at spec
    cases run : createDirectory G.layout parent name image with
    | fault => rwa [run] at spec
    | ok i after =>
      rw [run] at spec
      obtain ⟨block, k, p, ready, -⟩ := spec
      obtain rfl := unique i ready.first
      rcases cramped with full | links | dirs
      · exact Bool.noConfusion (ready.clear.symm.trans (full block ready.hasBlock))
      · have := ready.links_lt
        omega
      · have := ready.dirs_lt
        omega
    | err e after =>
      rw [run] at spec
      rcases spec with ⟨-, not⟩ | ⟨-, i, m', first', -, shows', taken⟩
      · exact not ⟨admits, ino, first.1⟩
      · obtain rfl := unique i first'
        refine shows.ne_image shows' ?_ (clean e after run)
        rintro rfl
        exact Bool.noConfusion (first.1.clear.symm.trans taken)
  · intro fine e after run
    rcases (createDirectory_wlp shows con).of_err run with
      ⟨same, -⟩ | ⟨small, admits, ino, m', first, cramped, -⟩
    · exact same
    · exact absurd ⟨small, admits, ino, first, cramped⟩ fine

theorem unlinkFile_refuses {dir : Nat} {name : List UInt8} :
    RefusesCleanly (unlinkFile G.layout dir name) image ↔ ¬ UnlinkSticks G m dir name := by
  have spec := unlinkFile_wp shows con dir name
  constructor
  · rintro clean ⟨k, l, p, q, r, found, regular, stuck⟩
    unfold Wp at spec
    cases run : unlinkFile G.layout dir name image with
    | fault => rwa [run] at spec
    | ok u after =>
      rw [run] at spec
      obtain ⟨k', l', p', q', r', ino, found', rfl, -, erasable, fits, -⟩ := spec
      obtain ⟨rfl, -, rfl, rfl, -⟩ := found.unique found'
      exact stuck ⟨erasable, fits⟩
    | err e after =>
      rw [run] at spec
      rcases spec with ⟨-, not⟩ | ⟨_, _, _, _, _, m', -, -, -, shows', ne⟩
      · exact not k l p q r found regular
      · exact shows.ne_image shows' ne (clean e after run)
  · intro fine e after run
    rcases spec.wlp.of_err run with ⟨same, -⟩ | ⟨k, l, p, q, r, m', found, regular, stuck, -⟩
    · exact same
    · exact absurd ⟨k, l, p, q, r, found, regular, stuck⟩ fine

theorem removeDirectory_refuses {parent : Nat} {name : List UInt8} :
    RefusesCleanly (removeDirectory G.layout parent name) image ↔ ¬ RemoveSticks G m parent name := by
  have spec := removeDirectory_wp shows con parent name
  constructor
  · rintro clean ⟨k, l, p, q, r, found, isDir, empty, stuck⟩
    unfold Wp at spec
    cases run : removeDirectory G.layout parent name image with
    | fault => rwa [run] at spec
    | ok u after =>
      rw [run] at spec
      obtain ⟨k', l', p', q', r', ino, found', rfl, -, -, ready, -⟩ := spec
      obtain ⟨rfl, -, rfl, rfl, -⟩ := found.unique found'
      exact stuck ready
    | err e after =>
      rw [run] at spec
      rcases spec with ⟨-, not⟩ | ⟨_, _, _, _, _, m', -, -, -, -, shows', ne⟩
      · exact not k l p q r found ⟨isDir, empty⟩
      · exact shows.ne_image shows' ne (clean e after run)
  · intro fine e after run
    rcases spec.wlp.of_err run with
      ⟨same, -⟩ | ⟨k, l, p, q, r, m', found, isDir, empty, stuck, -⟩
    · exact same
    · exact absurd ⟨k, l, p, q, r, found, isDir, empty, stuck⟩ fine

end Refusals

/-- On a consistent image the calls that work on names leave the image alone when they
refuse, except where they give up half way. -/
theorem refuses_cleanly_iff {G : Geometry} {image : Bytes} {m : Disk} (describes : G.Describes image)
    (contents : G.carving.view image = m) (con : Consistent G m) (dir : Nat) (name : List UInt8) :
    RefusesCleanly (createFile G.layout dir name) image ∧
    (RefusesCleanly (createDirectory G.layout dir name) image ↔ ¬ Strands G m dir name) ∧
    (RefusesCleanly (unlinkFile G.layout dir name) image ↔ ¬ UnlinkSticks G m dir name) ∧
    (RefusesCleanly (removeDirectory G.layout dir name) image ↔ ¬ RemoveSticks G m dir name) := by
  have shows := describes.shows
  rw [contents] at shows
  exact ⟨createFile_refuses shows con, createDirectory_refuses shows con,
    unlinkFile_refuses shows con, removeDirectory_refuses shows con⟩

theorem refuses_cleanly_iff_full :
    RefusesCleanly (createDirectory (smallGeometry 0).layout 2 [100]) (smallImage 0) ↔
      ¬ Strands (smallGeometry 0) ((smallGeometry 0).carving.view (smallImage 0)) 2 [100] :=
  (refuses_cleanly_iff (smallImage_describes 0) rfl (smallImage_view 0) 2 [100]).2.1

/-- On a full image `create_directory` refuses and keeps the inode it has taken. -/
theorem createDirectory_strands : ConsistentImage (smallImage 0) ∧
    ¬ RefusesCleanly (createDirectory (smallGeometry 0).layout 2 [100]) (smallImage 0) := by
  refine ⟨smallImage_consistent 0, fun clean => ?_⟩
  have taken : (match createDirectory (smallGeometry 0).layout 2 [100] (smallImage 0) with
    | .err _ after => decide (after.get 4097 ≠ (smallImage 0).get 4097)
    | _ => false) = true := by decide
  split at taken
  · rename_i e after run
    exact of_decide_eq_true taken (congrArg (Bytes.get · 4097) (clean e after run))
  · cases taken

end Zaytos.Fs
