import Zaytos.Ext2.Runs
import Zaytos.Lib.Transition

set_option autoImplicit false

/-! The four calls on the bitmaps in any order: what each of them promises in every state that
such calls lead to. -/
namespace Zaytos.Fs

open Exec (Wp Wlp)

section Refused

variable {G : Geometry} {base image : Bytes} {m : Disk} (shows : G.Shows base image m)
include shows

theorem freeBlock_refused {b : Nat} (not : ¬ (G.layout.HasBlock b ∧ m.blockUsed G.layout b = true)) :
    Wp (freeBlock G.layout b) image (fun _ _ => False) fun _ after => after = image := by
  by_cases has : G.layout.HasBlock b
  · have clear : m.blockUsed G.layout b = false := by simpa [has] using not
    have group := Layout.blockGroup_lt G.wf has
    have index := Layout.blockIndex_lt G.wf has
    have valid : G.areaValid (.blockBitmap (G.layout.blockGroup b)) := group
    have bitmapLt : G.blockBitmap (G.layout.blockGroup b) < 2 ^ 32 := by
      rw [← shows.blockBitmap group]
      exact image.u32_lt _
    have descriptorEnd := shows.descriptor_le group
    have byteLt : G.layout.blockIndex b / 8 < G.areaLen (.blockBitmap (G.layout.blockGroup b)) := by
      simp only [Geometry.areaLen, divCeil]
      omega
    have bitmapEnd := shows.area_le valid
    have pos : bitmapByte (G.blockBitmap (G.layout.blockGroup b) * G.layout.blockSize)
        (G.layout.blockIndex b) =
        G.areaPos (.blockBitmap (G.layout.blockGroup b)) + G.layout.blockIndex b / 8 := rfl
    have byte := shows.get valid byteLt
    have unset : (m (.blockBitmap (G.layout.blockGroup b))).get (G.layout.blockIndex b / 8) &&&
        bitMask (G.layout.blockIndex b % 8) = 0 := by
      rw [and_bitMask_eq_zero _ (Nat.mod_lt _ (by omega))]
      exact clear
    unfold freeBlock
    simp only [Exec.wp_bind, Exec.wp_read, Layout.locate_of_has G.wf has, Result.okOr_ok,
      Result.sat_ok, Layout.descriptorAt_of_lt G.wf group, wp_imageLen, Exec.wp_rejectIf, wp_readU32,
      shows.blockBitmap group, Layout.blockAt_of_lt G.wf bitmapLt, pos, wp_readU8, byte]
    refine ⟨fun _ => trivial, fun _ => ⟨by omega, fun _ => trivial, fun _ => ⟨by omega,
      fun _ => trivial, fun set => absurd unset set⟩⟩⟩
  · have nowhere : G.layout.locate b = .err () := by
      unfold Layout.locate
      by_cases beyond : G.layout.blocksCount ≤ b
      · rw [Result.rejectIf_bind, if_pos beyond]
      · rw [Result.rejectIf_bind, if_neg beyond, Result.rejectIf_bind,
          if_pos (Nat.lt_of_not_le fun above => has ⟨above, Nat.lt_of_not_le beyond⟩)]
    unfold freeBlock Wp
    rw [Exec.bind_of_err (Exec.read_of_err (by rw [nowhere]; rfl))]

theorem freeInode_refused {ino : Nat}
    (not : ¬ (G.layout.HasInode ino ∧ m.inodeUsed G.layout ino = true)) :
    Wp (freeInode G.layout ino) image (fun _ _ => False) fun _ after => after = image := by
  have perGroup := G.wf.inodesPerGroup_pos
  have groupDiv : div (ino - 1) G.layout.inodesPerGroup = some (G.layout.inodeGroup ino) :=
    div_of_ne (by omega)
  have indexRem : rem (ino - 1) G.layout.inodesPerGroup = some (G.layout.inodeIndex ino) :=
    rem_of_ne (by omega)
  by_cases has : G.layout.HasInode ino
  · have clear : m.inodeUsed G.layout ino = false := by simpa [has] using not
    have inoPos := has.pos
    have le := has.le
    have group := has.group_lt
    have index := Layout.inodeIndex_lt G.wf has
    have valid : G.areaValid (.inodeBitmap (G.layout.inodeGroup ino)) := group
    have bitmapLt : G.inodeBitmap (G.layout.inodeGroup ino) < 2 ^ 32 := by
      rw [← shows.inodeBitmap group]
      exact image.u32_lt _
    have descriptorEnd := shows.descriptor_le group
    have byteLt : G.layout.inodeIndex ino / 8 <
        G.areaLen (.inodeBitmap (G.layout.inodeGroup ino)) := by
      simp only [Geometry.areaLen, divCeil]
      omega
    have bitmapEnd := shows.area_le valid
    have pos : bitmapByte (G.inodeBitmap (G.layout.inodeGroup ino) * G.layout.blockSize)
        (G.layout.inodeIndex ino) =
        G.areaPos (.inodeBitmap (G.layout.inodeGroup ino)) + G.layout.inodeIndex ino / 8 := rfl
    have byte := shows.get valid byteLt
    have unset : (m (.inodeBitmap (G.layout.inodeGroup ino))).get (G.layout.inodeIndex ino / 8) &&&
        bitMask (G.layout.inodeIndex ino % 8) = 0 := by
      rw [and_bitMask_eq_zero _ (Nat.mod_lt _ (by omega))]
      exact clear
    unfold freeInode
    simp only [Exec.wp_bind, Exec.wp_rejectIf, Exec.wp_lift, groupDiv, indexRem, Option.some.injEq,
      exists_eq_left', Exec.wp_read, Layout.descriptorAt_of_lt G.wf group, Result.okOr_ok,
      Result.sat_ok, wp_imageLen, wp_readU32, shows.inodeBitmap group,
      Layout.blockAt_of_lt G.wf bitmapLt, pos, wp_readU8, byte]
    refine ⟨fun _ => trivial, fun _ => ⟨fun _ => trivial, fun _ => ⟨by omega, fun _ => trivial,
      fun _ => ⟨by omega, fun _ => trivial, fun set => absurd unset set⟩⟩⟩⟩
  · unfold freeInode
    simp only [Exec.wp_bind, Exec.wp_rejectIf, Exec.wp_lift, groupDiv, indexRem, Option.some.injEq,
      exists_eq_left', Exec.wp_read]
    refine ⟨fun _ => trivial, fun inside => ?_⟩
    have beyond : G.layout.groupCount ≤ G.layout.inodeGroup ino := by
      by_contra within
      exact has ⟨by omega, by omega, by omega⟩
    rw [Layout.descriptorAt_of_ge beyond, Result.okOr_err, Result.sat_err]
    trivial

end Refused

section Full

variable {G : Geometry} {base image : Bytes} {m : Disk} (shows : G.Shows base image m)
  (counts : m.InodeCounts G.layout)
include shows counts

theorem allocateInodeIn_none {g : Nat} (group : g < G.layout.groupCount)
    (full : ∀ ino, G.layout.inodeGroup ino = g → ¬ m.Open G.layout ino) :
    allocateInodeIn G.layout (G.layout.descriptorPos g) (G.inodeBitmap g * G.layout.blockSize)
      (g * G.layout.inodesPerGroup + 1) 0 (G.layout.inodeSpan g) image = .ok none image := by
  have spec := allocateInodeIn_wp shows counts group (G.layout.inodeSpan g) (zero_add _)
  unfold Wp at spec
  cases run : allocateInodeIn G.layout (G.layout.descriptorPos g)
      (G.inodeBitmap g * G.layout.blockSize) (g * G.layout.inodesPerGroup + 1) 0
      (G.layout.inodeSpan g) image with
  | fault =>
    rw [run] at spec
    exact spec.elim
  | err e after =>
    rw [run] at spec
    exact spec.elim
  | ok found after =>
    rw [run] at spec
    cases found with
    | none => rw [spec.1]
    | some ino => exact absurd spec.1 (full ino spec.2.1)

/-- Where there is nothing to hand out, the loop of `allocate_inode` computes the first number of
every group that is left. -/
theorem allocateInodeFrom_total_iff (remaining : Nat) {g : Nat}
    (ends : g + remaining = G.layout.groupCount)
    (full : ∀ ino, g ≤ G.layout.inodeGroup ino → ¬ m.Open G.layout ino) :
    Exec.Total (allocateInodeFrom G.layout g remaining) image ↔
      ∀ j, g ≤ j → j < G.layout.groupCount →
        G.layout.inodesCount + 1 < 2 ^ 32 ∧ j * G.layout.inodesPerGroup + 1 < 2 ^ 32 := by
  induction remaining generalizing g with
  | zero =>
    apply iff_of_true trivial
    intro j above below
    omega
  | succ remaining ih =>
    have group : g < G.layout.groupCount := by omega
    have bitmapLt : G.inodeBitmap g < 2 ^ 32 := by
      rw [← shows.inodeBitmap group]
      exact image.u32_lt _
    have descriptorEnd := shows.descriptor_le group
    have long : ¬ image.len < G.layout.descriptorPos g + groupDescriptorSize := by
      simp only [groupDescriptorSize]
      omega
    have here := allocateInodeIn_none shows counts group fun ino same => full ino (by omega)
    have rest := ih (g := g + 1) (by omega) fun ino above => full ino (by omega)
    unfold allocateInodeFrom Exec.Total
    simp only [Exec.wp_bind, Exec.wp_read, Layout.descriptorAt_of_lt G.wf group, Result.okOr_ok,
      Result.sat_ok, wp_imageLen, Exec.wp_rejectIf, wp_readU32, shows.inodeBitmap group,
      Layout.blockAt_of_lt G.wf bitmapLt, Exec.wp_lift, mul32_eq_some, add32_eq_some]
    constructor
    · intro total
      obtain ⟨-, -, ⟨-, rfl⟩, -, ⟨firstLt, rfl⟩, -, ⟨lastLt, rfl⟩, inner⟩ := total.2 long
      rw [inodeSpan_eq] at inner
      unfold Wp at inner
      rw [here] at inner
      intro j above below
      by_cases first : j = g
      · rw [first]
        exact ⟨lastLt, firstLt⟩
      · exact rest.mp inner j (by omega) below
    · intro fits
      obtain ⟨lastLt, firstLt⟩ := fits g (le_refl g) group
      refine ⟨fun short => absurd short long, fun _ => ⟨by omega, _, ⟨by omega, rfl⟩, _,
        ⟨firstLt, rfl⟩, _, ⟨lastLt, rfl⟩, ?_⟩⟩
      rw [inodeSpan_eq]
      unfold Wp
      rw [here]
      exact rest.mpr fun j above below => fits j (by omega) below

/-- The number of inodes has a successor, and so have the numbers of inodes in front of each group
if all of them are looked at. -/
def Countable (G : Geometry) (m : Disk) : Prop :=
  G.layout.inodesCount + 1 < 2 ^ 32 ∧ ((∃ ino, m.Open G.layout ino) ∨
    ∀ g < G.layout.groupCount, g * G.layout.inodesPerGroup + 1 < 2 ^ 32)

theorem allocateInode_total_iff :
    Exec.Total (allocateInode G.layout) image ↔ Countable G m := by
  constructor
  · intro total
    apply And.intro (allocateInode_small shows total)
    by_cases free : ∃ ino, m.Open G.layout ino
    · exact .inl free
    · have none : ∀ ino, 0 ≤ G.layout.inodeGroup ino → ¬ m.Open G.layout ino :=
        fun ino _ isOpen => free ⟨ino, isOpen⟩
      exact .inr fun g group => ((allocateInodeFrom_total_iff shows counts _ (zero_add _)
        none).mp total g (Nat.zero_le g) group).2
  · intro countable
    by_cases free : ∃ ino, m.Open G.layout ino
    · exact allocateInode_total shows counts countable.1 free.choose_spec
    · have none : ∀ ino, 0 ≤ G.layout.inodeGroup ino → ¬ m.Open G.layout ino :=
        fun ino _ isOpen => free ⟨ino, isOpen⟩
      apply (allocateInodeFrom_total_iff shows counts _ (zero_add _) none).mpr
      intro g _ group
      exact ⟨countable.1, countable.2.resolve_left free g group⟩

end Full

structure Disk.Agree (L : Layout) (m : Disk) : Prop where
  blocks : m.BlockCounts L
  inodes : m.InodeCounts L

section Agree

variable {L : Layout} {m : Disk} (agree : m.Agree L) (wf : L.Wf)
include agree wf

theorem Disk.Agree.takeBlock {b : Nat} (has : L.HasBlock b) (clear : m.blockUsed L b = false) :
    (m.markBlock L b true).Agree L where
  blocks := by
    have groupLt := (m (.groupFreeBlocks (L.blockGroup b))).u16_lt 0
    have totalLt := (m .freeBlocks).u32_lt 0
    apply agree.blocks.mark wf true has clear
    · exact lt_of_le_of_lt (Nat.sub_le _ 1) groupLt
    · exact lt_of_le_of_lt (Nat.sub_le _ 1) totalLt
  inodes := agree.inodes.congr (fun _ => markBlock_inodeBitmap _) (fun _ => markBlock_groupFreeInodes _)
    markBlock_freeInodes

theorem Disk.Agree.giveBlock {b : Nat} (has : L.HasBlock b) (used : m.blockUsed L b = true)
    (groupLt : m.groupFreeBlocks (L.blockGroup b) + 1 < 2 ^ 16) :
    (m.markBlock L b false).Agree L where
  blocks := agree.blocks.mark wf false has used groupLt (agree.blocks.total_lt wf has used)
  inodes := agree.inodes.congr (fun _ => markBlock_inodeBitmap _) (fun _ => markBlock_groupFreeInodes _)
    markBlock_freeInodes

theorem Disk.Agree.takeInode {ino : Nat} (has : L.HasInode ino) (clear : m.inodeUsed L ino = false) :
    (m.markInode L ino true).Agree L where
  blocks := agree.blocks.congr (fun _ => markInode_blockBitmap _) (fun _ => markInode_groupFreeBlocks _)
    markInode_freeBlocks
  inodes := by
    have groupLt := (m (.groupFreeInodes (L.inodeGroup ino))).u16_lt 0
    have totalLt := (m .freeInodes).u32_lt 0
    apply agree.inodes.mark wf true has clear
    · exact lt_of_le_of_lt (Nat.sub_le _ 1) groupLt
    · exact lt_of_le_of_lt (Nat.sub_le _ 1) totalLt

theorem Disk.Agree.giveInode {ino : Nat} (has : L.HasInode ino) (used : m.inodeUsed L ino = true)
    (groupLt : m.groupFreeInodes (L.inodeGroup ino) + 1 < 2 ^ 16) :
    (m.markInode L ino false).Agree L where
  blocks := agree.blocks.congr (fun _ => markInode_blockBitmap _) (fun _ => markInode_groupFreeBlocks _)
    markInode_freeBlocks
  inodes := agree.inodes.mark wf false has used groupLt (agree.inodes.total_lt wf has used)

end Agree

section Restores

variable {G : Geometry} {base image after : Bytes} {m : Disk} (shows : G.Shows base image m)
  (agree : m.Agree G.layout)
include shows agree

theorem freeBlock_restores {b : Nat} (has : G.layout.HasBlock b) (clear : m.blockUsed G.layout b = false)
    (shows' : G.Shows base after (m.markBlock G.layout b true)) :
    freeBlock G.layout b after = .ok () image := by
  have agree' := agree.takeBlock G.wf has clear
  have used : (m.markBlock G.layout b true).blockUsed G.layout b = true := by
    rw [Disk.blockUsed_markBlock has has, if_pos rfl]
  have groupPos := agree.blocks.group_pos G.wf has clear
  have totalPos := agree.blocks.total_pos has clear
  have groupLt : m.groupFreeBlocks (G.layout.blockGroup b) < 2 ^ 16 := (m _).u16_lt 0
  have totalLt : m.freeBlocks < 2 ^ 32 := (m _).u32_lt 0
  have taken : (m.markBlock G.layout b true).groupFreeBlocks (G.layout.blockGroup b) + 1 =
      m.groupFreeBlocks (G.layout.blockGroup b) := by
    rw [Disk.groupFreeBlocks_markBlock (lt_of_le_of_lt (Nat.sub_le _ 1) groupLt), if_pos rfl]
    exact Nat.sub_add_cancel groupPos
  have restored : (m.markBlock G.layout b true).markBlock G.layout b false = m :=
    Disk.mark_mark (by simp) (by simp) (by simp) clear (fun _ => groupPos)
      (lt_of_le_of_lt (Nat.sub_le _ 1) groupLt) (fun _ => totalPos)
      (lt_of_le_of_lt (Nat.sub_le _ 1) totalLt)
  have spec := freeBlock_wp shows' has used (agree'.blocks.total_lt G.wf has used)
  rw [restored] at spec
  unfold Wp at spec
  cases run : freeBlock G.layout b after with
  | fault =>
    rw [run] at spec
    exact spec.elim
  | err e last =>
    rw [run] at spec
    have := spec.1
    omega
  | ok u last =>
    rw [run] at spec
    rw [spec.2.holds.unique shows.holds]

theorem freeInode_restores {ino : Nat} (has : G.layout.HasInode ino)
    (clear : m.inodeUsed G.layout ino = false)
    (shows' : G.Shows base after (m.markInode G.layout ino true)) :
    freeInode G.layout ino after = .ok () image := by
  have agree' := agree.takeInode G.wf has clear
  have used : (m.markInode G.layout ino true).inodeUsed G.layout ino = true := by
    rw [Disk.inodeUsed_markInode has has, if_pos rfl]
  have groupPos := agree.inodes.group_pos G.wf has clear
  have totalPos := agree.inodes.total_pos has clear
  have groupLt : m.groupFreeInodes (G.layout.inodeGroup ino) < 2 ^ 16 := (m _).u16_lt 0
  have totalLt : m.freeInodes < 2 ^ 32 := (m _).u32_lt 0
  have taken : (m.markInode G.layout ino true).groupFreeInodes (G.layout.inodeGroup ino) + 1 =
      m.groupFreeInodes (G.layout.inodeGroup ino) := by
    rw [Disk.groupFreeInodes_markInode (lt_of_le_of_lt (Nat.sub_le _ 1) groupLt), if_pos rfl]
    exact Nat.sub_add_cancel groupPos
  have restored : (m.markInode G.layout ino true).markInode G.layout ino false = m :=
    Disk.mark_mark (by simp) (by simp) (by simp) clear (fun _ => groupPos)
      (lt_of_le_of_lt (Nat.sub_le _ 1) groupLt) (fun _ => totalPos)
      (lt_of_le_of_lt (Nat.sub_le _ 1) totalLt)
  have spec := freeInode_wp shows' has used (agree'.inodes.total_lt G.wf has used)
  rw [restored] at spec
  unfold Wp at spec
  cases run : freeInode G.layout ino after with
  | fault =>
    rw [run] at spec
    exact spec.elim
  | err e last =>
    rw [run] at spec
    have := spec.1
    omega
  | ok u last =>
    rw [run] at spec
    rw [spec.2.holds.unique shows.holds]

end Restores

inductive AllocCall where
  | allocateBlock
  | freeBlock (block : Nat)
  | allocateInode
  | freeInode (ino : Nat)

/-- An image, and the numbers that were handed out and have not been given back. -/
structure Held where
  image : Bytes
  blocks : List Nat
  inodes : List Nat

def Held.settle {α : Type} (s : Held) (call : Writer α) (done : α → Bytes → Held) : Option Held :=
  match call s.image with
  | .fault => none
  | .err _ after => some { s with image := after }
  | .ok a after => some (done a after)

def allocStep (L : Layout) (s : Held) : AllocCall → Option Held
  | .allocateBlock =>
    s.settle (allocateBlock L) fun b after => { s with image := after, blocks := b :: s.blocks }
  | .freeBlock b =>
    s.settle (freeBlock L b) fun _ after =>
      { s with image := after, blocks := s.blocks.filter (· ≠ b) }
  | .allocateInode =>
    s.settle (allocateInode L) fun ino after =>
      { s with image := after, inodes := ino :: s.inodes }
  | .freeInode ino =>
    s.settle (freeInode L ino) fun _ after =>
      { s with image := after, inodes := s.inodes.filter (· ≠ ino) }

theorem Held.settle_cases {α : Type} {s t : Held} {call : Writer α} {done : α → Bytes → Held}
    {Q : α → Bytes → Prop} {E : AllocError → Bytes → Prop} (spec : Wlp call s.image Q E)
    (settled : s.settle call done = some t) :
    (∃ a after, Q a after ∧ done a after = t) ∨
      ∃ e after, E e after ∧ { s with image := after } = t := by
  unfold settle at settled
  unfold Wlp at spec
  cases run : call s.image with
  | fault =>
    rw [run] at settled
    cases settled
  | err e after =>
    rw [run] at settled spec
    exact .inr ⟨e, after, spec, Option.some.inj settled⟩
  | ok a after =>
    rw [run] at settled spec
    exact .inl ⟨a, after, spec, Option.some.inj settled⟩

/-- The image shows contents with counts that agree, and what is held is in use there. -/
structure Tracks (G : Geometry) (base : Bytes) (m : Disk) (s : Held) : Prop where
  shows : G.Shows base s.image m
  agree : m.Agree G.layout
  blocks : ∀ b ∈ s.blocks, G.layout.HasBlock b ∧ m.blockUsed G.layout b = true
  inodes : ∀ ino ∈ s.inodes, G.layout.HasInode ino ∧ m.inodeUsed G.layout ino = true
  blocks_nodup : s.blocks.Nodup
  inodes_nodup : s.inodes.Nodup

section Step

variable {G : Geometry} {base : Bytes} {m : Disk} {s : Held} (tracks : Tracks G base m s)
include tracks

theorem Tracks.same {after : Bytes} (same : after = s.image) :
    Tracks G base m { s with image := after } := by
  subst same
  exact tracks

theorem Tracks.allocateBlock {b : Nat} {after : Bytes} (has : G.layout.HasBlock b)
    (clear : m.blockUsed G.layout b = false)
    (shows' : G.Shows base after (m.markBlock G.layout b true)) : b ∉ s.blocks ∧
      Tracks G base (m.markBlock G.layout b true) ⟨after, b :: s.blocks, s.inodes⟩ := by
  have fresh : b ∉ s.blocks := by
    intro mem
    exact Bool.noConfusion ((tracks.blocks b mem).2.symm.trans clear)
  refine ⟨fresh, shows', tracks.agree.takeBlock G.wf has clear, ?_, ?_,
    List.nodup_cons.mpr ⟨fresh, tracks.blocks_nodup⟩, tracks.inodes_nodup⟩
  · intro x mem
    cases List.mem_cons.mp mem with
    | inl same =>
      rw [same, Disk.blockUsed_markBlock has has, if_pos rfl]
      exact ⟨has, rfl⟩
    | inr old =>
      obtain ⟨hasX, used⟩ := tracks.blocks x old
      rw [Disk.blockUsed_markBlock has hasX, used, ite_self]
      exact ⟨hasX, rfl⟩
  · intro x mem
    unfold Disk.inodeUsed Disk.bitOf
    rw [Disk.markBlock_inodeBitmap]
    exact tracks.inodes x mem

theorem Tracks.freeBlock {b : Nat} {after : Bytes} (has : G.layout.HasBlock b)
    (used : m.blockUsed G.layout b = true)
    (groupLt : m.groupFreeBlocks (G.layout.blockGroup b) + 1 < 2 ^ 16)
    (shows' : G.Shows base after (m.markBlock G.layout b false)) :
    Tracks G base (m.markBlock G.layout b false) ⟨after, s.blocks.filter (· ≠ b), s.inodes⟩ := by
  refine ⟨shows', tracks.agree.giveBlock G.wf has used groupLt, ?_, ?_,
    tracks.blocks_nodup.filter _, tracks.inodes_nodup⟩
  · intro x mem
    rw [List.mem_filter, decide_eq_true_eq] at mem
    rw [Disk.blockUsed_markBlock has (tracks.blocks x mem.1).1, if_neg mem.2]
    exact tracks.blocks x mem.1
  · intro x mem
    unfold Disk.inodeUsed Disk.bitOf
    rw [Disk.markBlock_inodeBitmap]
    exact tracks.inodes x mem

theorem Tracks.allocateInode {ino : Nat} {after : Bytes} (has : G.layout.HasInode ino)
    (clear : m.inodeUsed G.layout ino = false)
    (shows' : G.Shows base after (m.markInode G.layout ino true)) : ino ∉ s.inodes ∧
      Tracks G base (m.markInode G.layout ino true) ⟨after, s.blocks, ino :: s.inodes⟩ := by
  have fresh : ino ∉ s.inodes := by
    intro mem
    exact Bool.noConfusion ((tracks.inodes ino mem).2.symm.trans clear)
  refine ⟨fresh, shows', tracks.agree.takeInode G.wf has clear, ?_, ?_, tracks.blocks_nodup,
    List.nodup_cons.mpr ⟨fresh, tracks.inodes_nodup⟩⟩
  · intro x mem
    unfold Disk.blockUsed Disk.bitOf
    rw [Disk.markInode_blockBitmap]
    exact tracks.blocks x mem
  · intro x mem
    cases List.mem_cons.mp mem with
    | inl same =>
      rw [same, Disk.inodeUsed_markInode has has, if_pos rfl]
      exact ⟨has, rfl⟩
    | inr old =>
      obtain ⟨hasX, used⟩ := tracks.inodes x old
      rw [Disk.inodeUsed_markInode has hasX, used, ite_self]
      exact ⟨hasX, rfl⟩

theorem Tracks.freeInode {ino : Nat} {after : Bytes} (has : G.layout.HasInode ino)
    (used : m.inodeUsed G.layout ino = true)
    (groupLt : m.groupFreeInodes (G.layout.inodeGroup ino) + 1 < 2 ^ 16)
    (shows' : G.Shows base after (m.markInode G.layout ino false)) :
    Tracks G base (m.markInode G.layout ino false) ⟨after, s.blocks, s.inodes.filter (· ≠ ino)⟩ := by
  refine ⟨shows', tracks.agree.giveInode G.wf has used groupLt, ?_, ?_, tracks.blocks_nodup,
    tracks.inodes_nodup.filter _⟩
  · intro x mem
    unfold Disk.blockUsed Disk.bitOf
    rw [Disk.markInode_blockBitmap]
    exact tracks.blocks x mem
  · intro x mem
    rw [List.mem_filter, decide_eq_true_eq] at mem
    rw [Disk.inodeUsed_markInode has (tracks.inodes x mem.1).1, if_neg mem.2]
    exact tracks.inodes x mem.1

theorem Tracks.step {call : AllocCall} {t : Held} (next : allocStep G.layout s call = some t) :
    ∃ m', Tracks G base m' t := by
  cases call with
  | allocateBlock =>
    have spec := (allocateBlock_wp tracks.shows tracks.agree.blocks).wlp
    rcases Held.settle_cases spec next with ⟨b, after, taken, rfl⟩ | ⟨e, after, refused, rfl⟩
    · exact ⟨_, (tracks.allocateBlock taken.1 taken.2.1 taken.2.2).2⟩
    · exact ⟨m, tracks.same refused.2.1⟩
  | freeBlock b =>
    by_cases held : G.layout.HasBlock b ∧ m.blockUsed G.layout b = true
    · have spec := (freeBlock_wp tracks.shows held.1 held.2
        (tracks.agree.blocks.total_lt G.wf held.1 held.2)).wlp
      rcases Held.settle_cases spec next with ⟨-, after, given, rfl⟩ | ⟨e, after, refused, rfl⟩
      · exact ⟨_, tracks.freeBlock held.1 held.2 given.1 given.2⟩
      · exact ⟨m, tracks.same refused.2.2⟩
    · rcases Held.settle_cases (freeBlock_refused tracks.shows held).wlp next with
        ⟨-, after, none, rfl⟩ | ⟨e, after, refused, rfl⟩
      · exact none.elim
      · exact ⟨m, tracks.same refused⟩
  | allocateInode =>
    have spec := allocateInode_wlp tracks.shows tracks.agree.inodes
    rcases Held.settle_cases spec next with ⟨ino, after, taken, rfl⟩ | ⟨e, after, refused, rfl⟩
    · exact ⟨_, (tracks.allocateInode taken.1.1.has taken.1.1.clear taken.2).2⟩
    · exact ⟨m, tracks.same refused.2.1⟩
  | freeInode ino =>
    by_cases held : G.layout.HasInode ino ∧ m.inodeUsed G.layout ino = true
    · have spec := (freeInode_wp tracks.shows held.1 held.2
        (tracks.agree.inodes.total_lt G.wf held.1 held.2)).wlp
      rcases Held.settle_cases spec next with ⟨-, after, given, rfl⟩ | ⟨e, after, refused, rfl⟩
      · exact ⟨_, tracks.freeInode held.1 held.2 given.1 given.2⟩
      · exact ⟨m, tracks.same refused.2.2⟩
    · rcases Held.settle_cases (freeInode_refused tracks.shows held).wlp next with
        ⟨-, after, none, rfl⟩ | ⟨e, after, refused, rfl⟩
      · exact none.elim
      · exact ⟨m, tracks.same refused⟩

end Step

structure Promises (G : Geometry) (s : Held) : Prop where
  agree : Disk.Agree G.layout (G.carving.view s.image)
  blocks_nodup : s.blocks.Nodup
  inodes_nodup : s.inodes.Nodup
  allocateBlock : Wp (allocateBlock G.layout) s.image
    (fun b after => G.layout.HasBlock b ∧ b ∉ s.blocks ∧
      Disk.blockUsed G.layout (G.carving.view s.image) b = false ∧
      Disk.blockUsed G.layout (G.carving.view after) b = true ∧
      freeBlock G.layout b after = .ok () s.image)
    (fun e after => e = .full ∧ after = s.image ∧
      ∀ b, G.layout.HasBlock b → Disk.blockUsed G.layout (G.carving.view s.image) b = true)
  freeBlock : ∀ b, ¬ (G.layout.HasBlock b ∧
      Disk.blockUsed G.layout (G.carving.view s.image) b = true) →
    Wp (freeBlock G.layout b) s.image (fun _ _ => False) fun _ after => after = s.image
  allocateInode : Wp (allocateInode G.layout) s.image
    (fun ino after => G.layout.HasInode ino ∧ G.layout.firstInode ≤ ino ∧ ino ∉ s.inodes ∧
      Disk.inodeUsed G.layout (G.carving.view s.image) ino = false ∧
      Disk.inodeUsed G.layout (G.carving.view after) ino = true ∧
      freeInode G.layout ino after = .ok () s.image)
    (fun e after => e = .full ∧ after = s.image ∧
      ∀ ino, ¬ Disk.Open G.layout (G.carving.view s.image) ino)
  freeInode : ∀ ino, ¬ (G.layout.HasInode ino ∧
      Disk.inodeUsed G.layout (G.carving.view s.image) ino = true) →
    Wp (freeInode G.layout ino) s.image (fun _ _ => False) fun _ after => after = s.image

/-- In every state that calls lead to from an image with counts that agree, the calls keep their
promises exactly when `allocate_inode` can count the inodes. -/
theorem allocators_promise_iff {G : Geometry} {image : Bytes} (describes : G.Describes image)
    (agree : Disk.Agree G.layout (G.carving.view image)) {s : Held}
    (reach : Reachable (allocStep G.layout) ⟨image, [], []⟩ s) :
    Promises G s ↔ Countable G (G.carving.view s.image) := by
  have start : ∃ m, Tracks G image m ⟨image, [], []⟩ :=
    ⟨_, describes.shows, agree, nofun, nofun, .nil, .nil⟩
  have keeps : ∀ s call t, (∃ m, Tracks G image m s) → allocStep G.layout s call = some t →
      ∃ m, Tracks G image m t := by
    intro s call t inv next
    obtain ⟨m, tracks⟩ := inv
    exact tracks.step next
  obtain ⟨m, tracks⟩ := reach.invariant (P := fun s => ∃ m, Tracks G image m s) start keeps
  have view : G.carving.view s.image = m := tracks.shows.holds.view
  have shows := tracks.shows
  constructor
  · intro promises
    rw [view]
    apply (allocateInode_total_iff shows tracks.agree.inodes).mp
    exact promises.allocateInode.mono (fun _ _ _ _ => trivial) fun _ _ _ _ => trivial
  · intro countable
    rw [view] at countable
    have total := (allocateInode_total_iff shows tracks.agree.inodes).mpr countable
    refine ⟨view ▸ tracks.agree, tracks.blocks_nodup, tracks.inodes_nodup, ?_, ?_, ?_, ?_⟩ <;>
      rw [view]
    · refine (allocateBlock_wp shows tracks.agree.blocks).mono ?_ fun _ _ _ refused => refused
      intro b after _ taken
      obtain ⟨has, clear, shows'⟩ := taken
      refine ⟨has, (tracks.allocateBlock has clear shows').1, clear, ?_,
        freeBlock_restores shows tracks.agree has clear shows'⟩
      rw [shows'.holds.view, Disk.blockUsed_markBlock has has, if_pos rfl]
    · exact fun b not => freeBlock_refused shows not
    · refine ((allocateInode_wlp shows tracks.agree.inodes).wp total).mono ?_
        fun _ _ _ refused => refused
      intro ino after _ taken
      obtain ⟨⟨⟨has, clear, notReserved⟩, -⟩, shows'⟩ := taken
      refine ⟨has, notReserved, (tracks.allocateInode has clear shows').1, clear, ?_,
        freeInode_restores shows tracks.agree has clear shows'⟩
      rw [shows'.holds.view, Disk.inodeUsed_markInode has has, if_pos rfl]
    · exact fun ino not => freeInode_refused shows not

/-- The image of a small file system, from which three calls take an inode and give it back and then
take it again. -/
theorem allocators_promise_small : ∃ s, Promises (smallGeometry 1) s ∧ s.inodes = [11] := by
  have ran : (runSteps (allocStep (smallGeometry 1).layout)
      [.allocateInode, .freeInode 11, .allocateInode] ⟨smallImage 1, [], []⟩).map Held.inodes =
        some [11] := by decide
  obtain ⟨s, run, inodes⟩ := Option.map_eq_some_iff.mp ran
  refine ⟨s, ?_, inodes⟩
  have con := smallImage_view 1
  apply (allocators_promise_iff (smallImage_describes 1) ⟨con.blockCounts, con.inodeCounts⟩
    (Reachable.refl.of_runSteps _ run)).mpr
  apply And.intro (by decide)
  apply Or.inr
  intro g group
  obtain rfl : g = 0 := Nat.lt_one_iff.mp group
  decide

/-- The geometry of the small image, with the largest number of inodes there can be. -/
def crowdedGeometry : Geometry where
  layout := ⟨1024, 8, 1, 8192, 1, 12, 128, 2 ^ 32 - 1, 0, 11⟩
  blockBitmap _ := 3
  inodeBitmap _ := 4
  inodeTable _ := 5
  reserved _ := False
  wf := ⟨⟨0, by decide⟩, by decide, ⟨7, by decide⟩, by decide, by decide, by decide, by decide,
    by decide, by decide, by decide, by decide, by decide, by decide⟩
  inside r valid := by
    rcases r with _ | _ | g | g | g <;>
      (try obtain rfl : g = 0 := Nat.lt_one_iff.mp valid) <;> clear valid <;> decide
  apart r r' valid valid' ne := by
    rcases r with _ | _ | g | g | g <;> rcases r' with _ | _ | g' | g' | g' <;>
      (try obtain rfl : g = 0 := Nat.lt_one_iff.mp valid) <;>
      (try obtain rfl : g' = 0 := Nat.lt_one_iff.mp valid') <;>
      first | exact absurd rfl ne | (clear valid valid' ne; decide)

instance : DecidablePred crowdedGeometry.reserved := fun _ => inferInstanceAs (Decidable False)

def crowdedImage : Bytes := (smallImage 0).putU32 1024 (2 ^ 32 - 1)

theorem crowdedImage_describes : crowdedGeometry.Describes crowdedImage := by
  have first : ∀ {g}, g < crowdedGeometry.layout.groupCount → g = 0 :=
    fun small => Nat.lt_one_iff.mp small
  refine ⟨exists_of_parsesTo (by decide), fun g group => ?_, fun g group => ?_,
    fun g group => ?_⟩ <;> obtain rfl := first group <;> clear first group <;> decide

theorem crowded_count (m : Disk) :
    Nat.count (fun j => crowdedGeometry.layout.HasInode (j + 1) ∧
      m.inodeUsed crowdedGeometry.layout (j + 1) = false) crowdedGeometry.layout.inodesCount =
    Nat.count (fun j => crowdedGeometry.layout.HasInode (j + 1) ∧
      m.inodeUsed crowdedGeometry.layout (j + 1) = false) 12 := by
  rw [show crowdedGeometry.layout.inodesCount = 12 + 4294967283 from rfl, Nat.count_add, Nat.add_eq_left, Nat.count_iff_forall_not]
  intro j _ both
  have inside := both.1.group_lt
  rw [show crowdedGeometry.layout.groupCount = 1 from rfl,
    show crowdedGeometry.layout.inodeGroup (12 + j + 1) = (12 + j) / 12 from rfl] at inside
  omega

theorem crowdedImage_agree :
    Disk.Agree crowdedGeometry.layout (crowdedGeometry.carving.view crowdedImage) := by
  rw [view_eq_readDisk]
  refine ⟨⟨fun g group => ?_, by decide⟩, ⟨fun g group => ?_, ?_⟩⟩
  · obtain rfl : g = 0 := Nat.lt_one_iff.mp group
    clear group
    decide
  · obtain rfl : g = 0 := Nat.lt_one_iff.mp group
    clear group
    decide
  · rw [crowded_count]
    decide

/-- The number behind the last inode does not fit its type. -/
theorem allocateInode_overflows : crowdedGeometry.Describes crowdedImage ∧
    Disk.Agree crowdedGeometry.layout (crowdedGeometry.carving.view crowdedImage) ∧
    ¬ Promises crowdedGeometry ⟨crowdedImage, [], []⟩ := by
  refine ⟨crowdedImage_describes, crowdedImage_agree, fun promises => ?_⟩
  have spec := promises.allocateInode
  have faults : (match allocateInode crowdedGeometry.layout crowdedImage with
    | .fault => true
    | _ => false) = true := by decide
  unfold Wp at spec
  cases run : allocateInode crowdedGeometry.layout crowdedImage with
  | fault =>
    rw [run] at spec
    exact spec
  | ok ino after =>
    rw [run] at faults
    cases faults
  | err e after =>
    rw [run] at faults
    cases faults

end Zaytos.Fs
