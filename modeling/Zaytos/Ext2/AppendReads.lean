import Zaytos.Ext2.FileBytes
import Zaytos.Ext2.Runs

set_option autoImplicit false

/-! What `append_to_file` leaves to be read. The bytes of the file are followed through the
rounds of the loop; a file may have holes, except for a last block that is not full. -/
namespace Zaytos.Fs

open Writer
open Exec (Wp Wlp)

/-- The blocks of an image are in order: the free counts, the metadata and what the slots
name. Files may have holes, but no block past their size. -/
structure SoundBlocks (G : Geometry) (m : Disk) : Prop where
  blockCounts : m.BlockCounts G.layout
  metaUsed : ∀ b, G.layout.HasBlock b → G.Meta b → m.blockUsed G.layout b = true
  slotUsed : ∀ ino, m.Live G.layout ino → ∀ k < inodeBlockCount, m.slot ino k ≠ 0 →
    G.DataBlock (m.slot ino k) ∧ m.blockUsed G.layout (m.slot ino k) = true
  slotUnique : ∀ i j k l, m.Live G.layout i → m.Live G.layout j → k < inodeBlockCount →
    l < inodeBlockCount → m.slot i k ≠ 0 → m.slot i k = m.slot j l → i = j ∧ k = l
  past : ∀ ino, m.Live G.layout ino → m.IsRegular ino →
    m.fileBlocks G.layout ino ≤ directBlockCount →
      ∀ k < inodeBlockCount, m.fileBlocks G.layout ino ≤ k → m.slot ino k = 0

theorem Consistent.soundBlocks {G : Geometry} {m : Disk} (con : Consistent G m) :
    SoundBlocks G m where
  blockCounts := con.blockCounts
  metaUsed := con.metaUsed
  slotUsed := con.slotUsed
  slotUnique := con.slotUnique
  past ino live regular _ k small above := by
    have shape := con.shape ino live (.inl regular)
    by_contra nonzero
    have := (shape.slot_iff k small).mp nonzero
    omega

/-- Byte `i` of an image is in area `a`. -/
def Geometry.In (G : Geometry) (a : Area) (i : Nat) : Prop :=
  G.areaPos a ≤ i ∧ i < G.areaPos a + G.areaLen a

/-- Block `b` is in use in `m'` and was free in `m`. -/
def Taken (G : Geometry) (m m' : Disk) (b : Nat) : Prop :=
  G.layout.HasBlock b ∧ m.blockUsed G.layout b = false ∧ m'.blockUsed G.layout b = true

instance (G : Geometry) (m m' : Disk) (b : Nat) : Decidable (Taken G m m' b) := by
  unfold Taken
  infer_instance

/-- Where an append to `ino` may change byte `i` of the image. -/
inductive Touched (G : Geometry) (m m' : Disk) (ino i : Nat) : Prop where
  | taken (b : Nat) (new : Taken G m m' b) (inside : G.In (.data b) i)
  | tail (b : Nat) (last : b = m.slot ino (m.size ino / G.layout.blockSize)) (nonzero : b ≠ 0)
      (inside : G.In (.data b) i)
      (behind : b * G.layout.blockSize + m.size ino % G.layout.blockSize ≤ i)
  | inode (o : Nat) (place : i = G.areaPos (.inode ino) + o)
      (field : 4 ≤ o ∧ o < 8 ∨ 28 ≤ o ∧ o < 32 ∨ 40 ≤ o ∧ o < 100)
  | bitmap (g : Nat) (group : g < G.layout.groupCount) (inside : G.In (.blockBitmap g) i)
  | groupCount (g : Nat) (group : g < G.layout.groupCount) (inside : G.In (.groupFreeBlocks g) i)
  | total (inside : G.In .freeBlocks i)

/-- What an append of `bytes` to `ino` is to leave behind. -/
structure Appended (G : Geometry) (image after : Bytes) (m m' : Disk) (ino : Nat)
    (bytes : List UInt8) : Prop where
  contents : ∃ old, contentsOf image ino = .ok old ∧ contentsOf after ino = .ok (old ++ bytes)
  kept : ∀ b, G.layout.HasBlock b → m.blockUsed G.layout b = true → m'.blockUsed G.layout b = true
  taken : ((Finset.range G.layout.blocksCount).filter (Taken G m m')).card =
    divCeil (m.size ino + bytes.length) G.layout.blockSize - m.fileBlocks G.layout ino
  frame : ∀ i, after.get i ≠ image.get i → Touched G m m' ino i

variable {p k old written : Nat}

section Bytes

variable {G : Geometry} {m₀ m : Disk} {ino n₀ n size b : Nat} {part bytes : List UInt8}

theorem fileByte_appendRound (takes : Takes G m ino size b)
    (inside : size % G.layout.blockSize + part.length ≤ G.layout.blockSize)
    (other : ∀ k < size / G.layout.blockSize, m.slot ino k ≠ b) (small : p < size + part.length) :
    (m.appendRound G.layout ino size b part).fileByte G.layout ino p =
      if p < size then m.fileByte G.layout ino p else part.getD (p - size) 0 := by
  have sizePos := G.wf.blockSize_pos
  have blockLt : b < 2 ^ 32 := lt_trans takes.data.1.2 G.wf.blocksCount_lt
  have nonzero := G.dataBlock_ne_zero takes.data
  have splitP := Nat.div_add_mod p G.layout.blockSize
  have split := Nat.div_add_mod size G.layout.blockSize
  have tail := Nat.mod_lt p sizePos
  have le : p / G.layout.blockSize ≤ size / G.layout.blockSize := by
    rw [Nat.div_le_iff_le_mul_add_pred sizePos]
    omega
  have untouched : ∀ x, x ≠ b →
      (m.appendRound G.layout ino size b part) (.data x) = m (.data x) := by
    intro x ne
    unfold Disk.appendRound Disk.nextBlock
    rw [Disk.set_of_ne _ (by simpa using ne)]
    by_cases boundary : size % G.layout.blockSize = 0
    · rw [if_pos boundary]
      unfold Disk.link
      rw [Disk.set_of_ne _ (by simp), Disk.markBlock_data]
    · rw [if_neg boundary]
  by_cases last : p / G.layout.blockSize = size / G.layout.blockSize
  · unfold Disk.fileByte Disk.block
    rw [last, takes.slot, if_neg nonzero]
    unfold Disk.appendRound
    rw [Disk.set_self]
    rw [last] at splitP
    by_cases old : p < size
    · have boundary : size % G.layout.blockSize ≠ 0 := by omega
      rw [if_pos old, Bytes.get_put_outside _ (by omega), takes.tail boundary, if_neg nonzero]
      unfold Disk.nextBlock
      rw [if_neg boundary]
    · rw [if_neg old, Bytes.get_put_inside _ (by omega) (by omega)]
      congr 1
      omega
  · have before : p / G.layout.blockSize < size / G.layout.blockSize := by omega
    have old : p < size := by
      have := Nat.mul_le_mul_left G.layout.blockSize before
      rw [Nat.mul_succ] at this
      omega
    have slot : (m.appendRound G.layout ino size b part).slot ino (p / G.layout.blockSize) =
        m.slot ino (p / G.layout.blockSize) := by
      rw [Disk.slot_appendRound blockLt, if_neg (by omega)]
    unfold Disk.fileByte Disk.block
    rw [if_pos old, slot, untouched _ (other _ before)]

/-- Of the bytes of a file the old ones are kept, and the first `written` of `bytes` follow. -/
structure Filled (G : Geometry) (m₀ m : Disk) (ino : Nat) (bytes : List UInt8)
    (old written : Nat) : Prop where
  kept : ∀ p < old, m.fileByte G.layout ino p = m₀.fileByte G.layout ino p
  added : ∀ k < written, m.fileByte G.layout ino (old + k) = bytes.getD k 0

structure OwnSlots (G : Geometry) (m₀ : Disk) (ino n₀ : Nat) : Prop extends
    Growable G m₀ ino n₀ where
  unique : ∀ k < n₀, ∀ l < n₀, m₀.slot ino k ≠ 0 → m₀.slot ino k = m₀.slot ino l → k = l

theorem Grown.slot_used (growable : Growable G m₀ ino n₀) (grown : Grown G m₀ m ino n₀ n)
    (small : k < n) (nonzero : m.slot ino k ≠ 0) : m.blockUsed G.layout (m.slot ino k) = true := by
  by_cases old : k < n₀
  · rw [grown.slot_lower old] at nonzero ⊢
    exact (grown.used _ (growable.data k old nonzero).1).mpr (.inl (growable.used k old nonzero))
  · have fresh := grown.fresh k (by omega) small
    exact (grown.used _ fresh.1.1).mpr (.inr ⟨k, by omega, small, rfl⟩)

theorem Grown.slot_unique (own : OwnSlots G m₀ ino n₀) (grown : Grown G m₀ m ino n₀ n) {l : Nat}
    (small : k < n) (small' : l < n) (nonzero : m.slot ino k ≠ 0)
    (same : m.slot ino k = m.slot ino l) : k = l := by
  have apart : ∀ {i j : Nat}, i < n₀ → n₀ ≤ j → j < n → m.slot ino i ≠ 0 →
      m.slot ino i ≠ m.slot ino j := by
    intro i j old new upper nonzero same
    have clear := (grown.fresh j new upper).2
    rw [← same, grown.slot_lower old] at clear
    rw [grown.slot_lower old] at nonzero
    exact Bool.noConfusion ((own.used i old nonzero).symm.trans clear)
  by_cases oldK : k < n₀
  · by_cases oldL : l < n₀
    · rw [grown.slot_lower oldK] at nonzero same
      rw [grown.slot_lower oldL] at same
      exact own.unique k oldK l oldL nonzero same
    · exact absurd same (apart oldK (by omega) small' nonzero)
  · by_cases oldL : l < n₀
    · rw [same] at nonzero
      exact absurd same.symm (apart oldL (by omega) small nonzero)
    · exact grown.distinct k l (by omega) small (by omega) small' same

theorem Grown.takes_other (own : OwnSlots G m₀ ino n₀)
    (grown : Grown G m₀ m ino n₀ (divCeil size G.layout.blockSize)) (takes : Takes G m ino size b)
    (before : k < size / G.layout.blockSize) : m.slot ino k ≠ b := by
  have sizePos := G.wf.blockSize_pos
  have nonzero := G.dataBlock_ne_zero takes.data
  intro same
  by_cases boundary : size % G.layout.blockSize = 0
  · rw [divCeil_eq_div sizePos (Nat.dvd_of_mod_eq_zero boundary)] at grown
    have used := grown.slot_used own.toGrowable before (by rwa [same])
    rw [same, takes.fresh boundary] at used
    cases used
  · rw [divCeil_of_tail sizePos boundary] at grown
    have slot := takes.tail boundary
    have equal := grown.slot_unique own (Nat.lt_succ_of_lt before) (Nat.lt_succ_self _)
      (by rwa [same]) (same.trans slot.symm)
    omega

theorem Filled.round {take : Nat} (own : OwnSlots G m₀ ino n₀)
    (grown : Grown G m₀ m ino n₀ (divCeil (old + written) G.layout.blockSize))
    (filled : Filled G m₀ m ino bytes old written) (takes : Takes G m ino (old + written) b)
    (within : written + take ≤ bytes.length)
    (inside : (old + written) % G.layout.blockSize + take ≤ G.layout.blockSize) :
    Filled G m₀ (m.appendRound G.layout ino (old + written) b ((bytes.drop written).take take)) ino
      bytes old (written + take) := by
  have length : (List.take take (List.drop written bytes)).length = take := by
    rw [List.length_take, List.length_drop]
    omega
  have byte : ∀ p, p < old + written + take →
      (m.appendRound G.layout ino (old + written) b ((bytes.drop written).take take)).fileByte
        G.layout ino p = if p < old + written then m.fileByte G.layout ino p
          else ((bytes.drop written).take take).getD (p - (old + written)) 0 := by
    intro p small
    apply fileByte_appendRound takes (by rwa [length]) (fun k => grown.takes_other own takes)
    rwa [length]
  refine ⟨fun p small => ?_, fun k small => ?_⟩
  · rw [byte p (by omega), if_pos (by omega)]
    exact filled.kept p small
  · rw [byte (old + k) (by omega)]
    by_cases before : k < written
    · rw [if_pos (by omega)]
      exact filled.added k before
    · rw [if_neg (by omega), show old + k - (old + written) = k - written by omega]
      simp only [List.getD_eq_getElem?_getD]
      rw [List.getElem?_take_of_lt (by omega), List.getElem?_drop,
        show written + (k - written) = k by omega]

end Bytes

section Append

variable {G : Geometry} {base image : Bytes} {m m' : Disk} {ino : Nat} {bytes : List UInt8}

/-- The last block of the file is there, unless it is full or nothing is to be written. -/
def WholeTail (G : Geometry) (m : Disk) (ino : Nat) (bytes : List UInt8) : Prop :=
  bytes = [] ∨ m.size ino % G.layout.blockSize = 0 ∨
    m.slot ino (m.size ino / G.layout.blockSize) ≠ 0

theorem appendToFile_filled (shows : G.Shows base image m)
    (own : OwnSlots G m ino (m.fileBlocks G.layout ino)) (counts : m.BlockCounts G.layout)
    (few : m.fileBlocks G.layout ino ≤ directBlockCount) (whole : WholeTail G m ino bytes) :
    let size := m.size ino + bytes.length
    let blocks := divCeil size G.layout.blockSize
    Wp (appendToFile G.layout ino bytes) image
      (fun _ after => ∃ m', Grown G m m' ino (m.fileBlocks G.layout ino) blocks ∧
        Filled G m m' ino bytes (m.size ino) bytes.length ∧
        G.Shows base after (m'.resize ino size (blocks * G.layout.sectorsPerBlock)))
      (fun e after => e = .full ∧ ∃ m' written, G.Shows base after m' ∧
        Grown G m m' ino (m.fileBlocks G.layout ino)
          (divCeil (m.size ino + written) G.layout.blockSize) ∧
        Filled G m m' ino bytes (m.size ino) written ∧
        written < bytes.length ∧ NoBlock G m' (m.size ino + written)) := by
  intro size blocks
  have ready : 0 < bytes.length → Appendable G m ino (m.size ino) := by
    intro some
    apply own.toGrowable.appendable counts
    intro open'
    rcases whole with none | full | there
    · rw [none] at some
      exact absurd some (lt_irrefl 0)
    · exact absurd full open'
    · exact there
  refine (appendToFile_induct _ shows own.has ready few
    (P := fun m' written => Grown G m m' ino (m.fileBlocks G.layout ino)
      (divCeil (m.size ino + written) G.layout.blockSize) ∧
      Filled G m m' ino bytes (m.size ino) written)
    ⟨Grown.refl counts few, ⟨fun _ _ => rfl, fun _ none => absurd none (Nat.not_lt_zero _)⟩⟩
    ?_).mono ?_ ?_
  · intro m' written b take takes pos within inside kept
    have length : (List.take take (List.drop written bytes)).length = take := by
      rw [List.length_take, List.length_drop]
      omega
    have next := kept.1.round (List.take take (List.drop written bytes)) own.toGrowable takes
      (by omega) (by omega)
    rw [length, add_assoc] at next
    exact ⟨next, kept.2.round own kept.1 takes within inside⟩
  · intro _ after _ h
    obtain ⟨m', kept, shows'⟩ := h
    exact ⟨m', kept.1, kept.2, shows'⟩
  · intro e after _ h
    obtain ⟨full, m', written, shows', kept, more, stop⟩ := h
    exact ⟨full, m', written, shows', kept.1, kept.2, more, stop⟩

theorem SoundBlocks.ownSlots (sound : SoundBlocks G m) (live : m.Live G.layout ino)
    (few : m.fileBlocks G.layout ino ≤ directBlockCount) :
    OwnSlots G m ino (m.fileBlocks G.layout ino) := by
  have bound : ∀ k < m.fileBlocks G.layout ino, k < inodeBlockCount :=
    fun k small => lt_of_lt_of_le small (le_trans few (by decide))
  refine ⟨⟨live.1, ?_, ?_, sound.metaUsed⟩, ?_⟩
  · intro k small nonzero
    exact (sound.slotUsed ino live k (bound k small) nonzero).1
  · intro k small nonzero
    exact (sound.slotUsed ino live k (bound k small) nonzero).2
  · intro k small l small' nonzero same
    exact (sound.slotUnique ino ino k l live live (bound k small) (bound l small') nonzero same).2

theorem SoundBlocks.plainFile (sound : SoundBlocks G m) (live : m.Live G.layout ino)
    (regular : m.IsRegular ino)
    (size_le : 2 ^ 32 * m.sizeHigh ino + m.size ino ≤ directBlockCount * G.layout.blockSize) :
    PlainFile G m ino where
  has := live.1
  regular := regular
  size_le := size_le
  data k small nonzero := (sound.slotUsed ino live k small nonzero).1
  past := by
    apply sound.past ino live regular
    unfold Disk.fileBlocks
    rw [divCeil_le_iff G.wf.blockSize_pos]
    omega

section After

variable {size sectors n : Nat} (file : PlainFile G m ino)
  (grown : Grown G m m' ino (m.fileBlocks G.layout ino) n)
include file grown

omit file in
theorem Grown.inode_kept {o : Nat} (outside : o < 4 ∨ 8 ≤ o ∧ o < 28 ∨ 32 ≤ o ∧ o < 40 ∨ 100 ≤ o) :
    (m'.resize ino size sectors (.inode ino)).get o = (m (.inode ino)).get o := by
  have few := grown.few
  simp only [directBlockCount] at few
  rw [get_resize (by omega)]
  exact grown.inode o (by omega)

theorem Grown.slot_cases (small : k < inodeBlockCount) (nonzero : m'.slot ino k ≠ 0) :
    k < n ∧ G.DataBlock (m'.slot ino k) := by
  have le := grown.le
  by_cases old : k < m.fileBlocks G.layout ino
  · rw [grown.slot_lower old] at nonzero ⊢
    exact ⟨by omega, file.data k small nonzero⟩
  by_cases new : k < n
  · exact ⟨new, (grown.fresh k (by omega) new).1⟩
  · have same : Bytes.SameOn (m (.inode ino)) (m' (.inode ino)) (40 + k * 4) 4 :=
      fun o lower upper => grown.inode o (.inr (by omega))
    have slot : m'.slot ino k = m.slot ino k := same.u32 (le_rfl) (le_rfl)
    exact absurd (slot.trans (file.past k small (by omega))) nonzero

theorem Grown.plainFile (blocks : divCeil size G.layout.blockSize = n) :
    PlainFile G (m'.resize ino size sectors) ino := by
  have few := grown.few
  have sizePos := G.wf.blockSize_pos
  have sizeLe : size ≤ directBlockCount * G.layout.blockSize := by
    rw [← divCeil_le_iff sizePos, blocks]
    exact few
  have sizeLt : size < 2 ^ 32 := by
    have most : directBlockCount * G.layout.blockSize ≤ 12 * 65536 :=
      Nat.mul_le_mul_left _ G.wf.blockSize_le
    omega
  have bytes : ∀ p n, p + n ≤ 4 ∨ 100 ≤ p →
      Bytes.SameOn (m (.inode ino)) (m'.resize ino size sectors (.inode ino)) p n :=
    fun p n outside o lower upper => grown.inode_kept (by omega)
  have mode : (m'.resize ino size sectors).mode ino = m.mode ino :=
    (bytes 0 2 (by omega)).u16 (le_rfl) (le_rfl)
  have high : (m'.resize ino size sectors).sizeHigh ino = m.sizeHigh ino :=
    (bytes 108 4 (by omega)).u32 (le_rfl) (le_rfl)
  refine ⟨file.has, ?_, ?_, ?_, ?_⟩
  · unfold Disk.IsRegular
    rw [mode]
    exact file.regular
  · rw [high, file.sizeHigh, size_resize sizeLt]
    omega
  · intro k small nonzero
    rw [slot_resize] at nonzero ⊢
    exact (grown.slot_cases file small nonzero).2
  · intro k small above
    unfold Disk.fileBlocks at above
    rw [size_resize sizeLt, blocks] at above
    rw [slot_resize]
    by_contra nonzero
    have := (grown.slot_cases file small nonzero).1
    omega

omit file grown in
theorem fileByte_resize : (m'.resize ino size sectors).fileByte G.layout ino p =
    m'.fileByte G.layout ino p := by
  unfold Disk.fileByte Disk.block
  rw [slot_resize, resize_of_ne (by simp)]

omit file grown in
theorem blockUsed_resize {b : Nat} : (m'.resize ino size sectors).blockUsed G.layout b =
    m'.blockUsed G.layout b := by
  unfold Disk.blockUsed Disk.bitOf
  rw [resize_of_ne (by simp)]

omit file in
theorem Grown.taken_iff {b : Nat} : Taken G m (m'.resize ino size sectors) b ↔
    ∃ k, m.fileBlocks G.layout ino ≤ k ∧ k < n ∧ m'.slot ino k = b := by
  unfold Taken
  rw [blockUsed_resize]
  constructor
  · intro taken
    rcases (grown.used b taken.1).mp taken.2.2 with used | new
    · exact Bool.noConfusion (used.symm.trans taken.2.1)
    · exact new
  · intro new
    obtain ⟨k, lower, upper, slot⟩ := new
    have fresh := grown.fresh k lower upper
    rw [slot] at fresh
    exact ⟨fresh.1.1, fresh.2, (grown.used b fresh.1.1).mpr (.inr ⟨k, lower, upper, slot⟩)⟩

omit file in
theorem Grown.card_taken :
    ((Finset.range G.layout.blocksCount).filter (Taken G m (m'.resize ino size sectors))).card =
      n - m.fileBlocks G.layout ino := by
  have image : (Finset.range G.layout.blocksCount).filter
      (Taken G m (m'.resize ino size sectors)) =
      (Finset.Ico (m.fileBlocks G.layout ino) n).image (m'.slot ino) := by
    apply Finset.ext
    intro b
    rw [Finset.mem_filter, grown.taken_iff, Finset.mem_image]
    constructor
    · intro h
      obtain ⟨k, lower, upper, slot⟩ := h.2
      exact ⟨k, Finset.mem_Ico.mpr ⟨lower, upper⟩, slot⟩
    · intro h
      obtain ⟨k, mem, slot⟩ := h
      have bounds := Finset.mem_Ico.mp mem
      have fresh := grown.fresh k bounds.1 bounds.2
      rw [slot] at fresh
      exact ⟨Finset.mem_range.mpr fresh.1.1.2, k, bounds.1, bounds.2, slot⟩
  rw [image, Finset.card_image_of_injOn, Nat.card_Ico]
  intro k mem l mem' same
  have bounds := Finset.mem_Ico.mp mem
  have bounds' := Finset.mem_Ico.mp mem'
  exact grown.distinct k l bounds.1 bounds.2 bounds'.1 bounds'.2 same

omit file in
theorem Grown.touched_tail {b k o old written : Nat} {m'' : Disk}
    (filled : Filled G m m' ino bytes old written) (oldSize : old = m.size ino)
    (data : G.DataBlock b) (last : m.fileBlocks G.layout ino = k + 1) (slot : m'.slot ino k = b)
    (changed : (m' (.data b)).get o ≠ (m (.data b)).get o) (small : o < G.layout.blockSize) :
    Touched G m m'' ino (G.areaPos (.data b) + o) := by
  have sizePos := G.wf.blockSize_pos
  have nonzero := G.dataBlock_ne_zero data
  have slotOld : m.slot ino k = b := by
    rw [← slot, grown.slot_lower (by omega)]
  -- The byte is not one of the old ones: those are kept.
  have behind : m.size ino ≤ k * G.layout.blockSize + o := by
    by_contra before
    have kept := filled.kept (k * G.layout.blockSize + o) (by omega)
    unfold Disk.fileByte Disk.block at kept
    rw [mul_comm k, Nat.mul_add_div sizePos, Nat.div_eq_of_lt small, add_zero,
      Nat.mul_add_mod, Nat.mod_eq_of_lt small, slot, slotOld, if_neg nonzero, if_neg nonzero] at kept
    exact changed kept
  have above : k * G.layout.blockSize < m.size ino := by
    rw [← lt_divCeil_iff sizePos]
    unfold Disk.fileBlocks at last
    omega
  have index : m.size ino / G.layout.blockSize = k := by
    apply Nat.div_eq_of_lt_le (le_of_lt above)
    rw [Nat.succ_mul]
    omega
  have split := Nat.div_add_mod (m.size ino) G.layout.blockSize
  rw [index, mul_comm] at split
  have start : G.areaPos (.data b) = b * G.layout.blockSize := rfl
  refine .tail b (by rw [index, slotOld]) nonzero ⟨Nat.le_add_right _ _, ?_⟩ ?_
  · exact Nat.add_lt_add_left small _
  · rw [start]
    omega

omit file in
theorem Grown.touched {after : Bytes} (shows : G.Shows base image m)
    (shows' : G.Shows base after (m'.resize ino size sectors))
    (filled : Filled G m m' ino bytes old written) (oldSize : old = m.size ino) {i : Nat}
    (changed : after.get i ≠ image.get i) : Touched G m (m'.resize ino size sectors) ino i := by
  have sizePos := G.wf.blockSize_pos
  have inArea : ¬ G.carving.Outside i := by
    intro outside
    exact changed ((shows'.holds.rest i outside).trans (shows.holds.rest i outside).symm)
  simp only [Carving.Outside, not_forall, not_or, not_lt, not_le] at inArea
  obtain ⟨a, valid, lower, upper⟩ := inArea
  have inside : G.In a i := ⟨lower, upper⟩
  obtain ⟨o, rfl⟩ : ∃ o, i = G.areaPos a + o := ⟨i - G.areaPos a, (Nat.add_sub_cancel' lower).symm⟩
  have small : o < G.areaLen a := by
    have : G.areaPos a + o < G.areaPos a + G.areaLen a := upper
    omega
  rw [shows.get valid small, shows'.get valid small] at changed
  have frame : (∀ b, a ≠ .data b) → a ≠ .inode ino → (∀ g, a ≠ .blockBitmap g) →
      (∀ g, a ≠ .groupFreeBlocks g) → a ≠ .freeBlocks → False := by
    intro notData notInode notBitmap notCount notTotal
    rw [resize_of_ne notInode, grown.other a notInode notData notBitmap notCount notTotal] at changed
    exact changed rfl
  cases a with
  | freeBlocks => exact .total inside
  | groupFreeBlocks g => exact .groupCount g valid inside
  | blockBitmap g => exact .bitmap g valid inside
  | freeInodes => exact (frame (by simp) (by simp) (by simp) (by simp) (by simp)).elim
  | groupFreeInodes g => exact (frame (by simp) (by simp) (by simp) (by simp) (by simp)).elim
  | usedDirs g => exact (frame (by simp) (by simp) (by simp) (by simp) (by simp)).elim
  | inodeBitmap g => exact (frame (by simp) (by simp) (by simp) (by simp) (by simp)).elim
  | inode j =>
    by_cases own : j = ino
    · subst own
      refine .inode o rfl ?_
      by_contra outside
      exact changed (grown.inode_kept (by omega))
    · exact (frame (by simp) (by simpa using own) (by simp) (by simp) (by simp)).elim
  | data b =>
    rw [resize_of_ne (by simp)] at changed
    by_cases linked : ∃ k, m.fileBlocks G.layout ino ≤ k + 1 ∧ k < n ∧ m'.slot ino k = b
    · obtain ⟨k, lowerK, upperK, slot⟩ := linked
      by_cases new : m.fileBlocks G.layout ino ≤ k
      · exact .taken b (grown.taken_iff.mpr ⟨k, new, upperK, slot⟩) inside
      · exact grown.touched_tail filled oldSize valid (by omega) slot changed small
    · refine absurd (congrArg (Bytes.get · o) (grown.data b fun k lowerK upperK same => ?_)) changed
      exact linked ⟨k, lowerK, upperK, same⟩

end After

theorem Filled.contents (filled : Filled G m m' ino bytes old bytes.length) :
    (List.range (old + bytes.length)).map (m'.fileByte G.layout ino) =
      (List.range old).map (m.fileByte G.layout ino) ++ bytes := by
  rw [List.range_add, List.map_append, List.map_map]
  congr 1
  · apply List.map_congr_left
    intro p mem
    exact filled.kept p (List.mem_range.mp mem)
  · apply List.ext_getElem
    · simp
    · intro k _ small
      rw [List.getElem_map, List.getElem_range, Function.comp_apply, filled.added k small,
        List.getD_eq_getElem?_getD, List.getElem?_eq_getElem small, Option.getD_some]

end Append

/-- An append that returns leaves what it is to leave, unless the file ends in the middle of
a hole. -/
theorem appendToFile_appended {G : Geometry} {image after : Bytes} {m : Disk}
    (describes : G.Describes image) (contents : G.carving.view image = m) (sound : SoundBlocks G m)
    {ino : Nat} (live : m.Live G.layout ino) (regular : m.IsRegular ino)
    (size_le : 2 ^ 32 * m.sizeHigh ino + m.size ino ≤ directBlockCount * G.layout.blockSize)
    {bytes : List UInt8} (whole : WholeTail G m ino bytes)
    (run : appendToFile G.layout ino bytes image = .ok () after) :
    Appended G image after m (G.carving.view after) ino bytes := by
  have shows := describes.shows
  rw [contents] at shows
  have file := sound.plainFile live regular size_le
  have own := sound.ownSlots live file.few
  obtain ⟨m', grown, filled, shows'⟩ :=
    (appendToFile_filled shows own sound.blockCounts file.few whole).wlp.of_ok run
  have file' : PlainFile G (m'.resize ino (m.size ino + bytes.length)
      (divCeil (m.size ino + bytes.length) G.layout.blockSize * G.layout.sectorsPerBlock)) ino :=
    grown.plainFile file rfl
  rw [shows'.holds.view]
  refine ⟨⟨_, file.contents shows, ?_⟩, ?_, grown.card_taken, ?_⟩
  · have sizeLt : m.size ino + bytes.length < 2 ^ 32 := by
      have few := grown.few
      rw [divCeil_le_iff G.wf.blockSize_pos] at few
      have most : directBlockCount * G.layout.blockSize ≤ 12 * 65536 :=
        Nat.mul_le_mul_left _ G.wf.blockSize_le
      omega
    rw [file'.contents shows', size_resize sizeLt, ← filled.contents]
    exact congrArg Result.ok (List.map_congr_left fun _ _ => fileByte_resize)
  · intro b has used
    rw [blockUsed_resize]
    exact (grown.used b has).mpr (.inl used)
  · intro i changed
    exact grown.touched shows shows' filled rfl changed

def SlotsCheck (G : Geometry) (m : Disk) (ino : Nat) : Prop :=
  (∀ k < inodeBlockCount, m.slot ino k ≠ 0 → SlotCheck G m ino k) ∧
  ∀ k < inodeBlockCount, m.fileBlocks G.layout ino ≤ k → m.slot ino k = 0

instance (G : Geometry) [DecidablePred G.reserved] (m : Disk) (ino : Nat) :
    Decidable (SlotsCheck G m ino) := by
  unfold SlotsCheck
  infer_instance

def BlocksCheck (G : Geometry) (m : Disk) : Prop :=
  (∀ g < G.layout.groupCount, m.groupFreeBlocks g = Nat.count (fun j => m.blockUsed G.layout
    (G.layout.firstDataBlock + g * G.layout.blocksPerGroup + j) = false) (G.layout.blockSpan g)) ∧
  m.freeBlocks = Nat.count (fun j => m.blockUsed G.layout (G.layout.firstDataBlock + j) = false)
    (G.layout.blocksCount - G.layout.firstDataBlock) ∧
  (∀ b < G.layout.blocksCount, G.layout.HasBlock b → G.Meta b → m.blockUsed G.layout b = true) ∧
  ∀ ino < G.layout.inodesCount + 1, m.Live G.layout ino → SlotsCheck G m ino

instance (G : Geometry) [DecidablePred G.reserved] (m : Disk) : Decidable (BlocksCheck G m) := by
  unfold BlocksCheck
  infer_instance

theorem BlocksCheck.sound {G : Geometry} {m : Disk} (checks : BlocksCheck G m) :
    SoundBlocks G m := by
  obtain ⟨groups, total, metaUsed, inodes⟩ := checks
  have slots : ∀ ino, m.Live G.layout ino → SlotsCheck G m ino := fun ino live =>
    inodes ino (Nat.lt_succ_of_le live.1.le) live
  refine ⟨⟨groups, total⟩, fun b has => metaUsed b has.2 has, ?_, ?_,
    fun ino live _ _ => (slots ino live).2⟩
  · intro ino live k small nonzero
    obtain ⟨data, used, -⟩ := (slots ino live).1 k small nonzero
    exact ⟨data, used⟩
  · intro i j k l liveI liveJ small small' nonzero same
    exact ((slots i liveI).1 k small nonzero).2.2 j (Nat.lt_succ_of_le liveJ.1.le) liveJ l small' same

/-- The small image with a file of `size` bytes that has no block. -/
def sparseImage (size : Fin 2) : Bytes := .ofRuns (9 * 1024) [
  (1024, leBytes 4 12 ++ leBytes 4 9 ++ leBytes 4 0 ++ leBytes 4 1 ++ leBytes 4 1 ++
    leBytes 4 1 ++ leBytes 4 0 ++ leBytes 4 0 ++ leBytes 4 8192 ++ leBytes 4 0 ++ leBytes 4 12),
  (1024 + 56, leBytes 2 0xEF53), (1024 + 76, leBytes 4 1), (1024 + 84, leBytes 4 11 ++ leBytes 2 128),
  (1024 + 96, leBytes 4 2),
  (2048, leBytes 4 3 ++ leBytes 4 4 ++ leBytes 4 5 ++ leBytes 2 1 ++ leBytes 2 1 ++ leBytes 2 1),
  (3072, [0x7F]), (4096, [0xFF, 0x07]),
  (5248, leBytes 2 0x41ED ++ leBytes 2 0 ++ leBytes 4 1024), (5274, leBytes 2 2 ++ leBytes 4 2),
  (5288, leBytes 4 7), (6400, leBytes 2 0x81A4 ++ leBytes 2 0 ++ leBytes 4 size),
  (6426, leBytes 2 1), (7168, leBytes 4 2 ++ leBytes 2 12 ++ [1, 2, 46]),
  (7180, leBytes 4 2 ++ leBytes 2 12 ++ [2, 2, 46, 46]),
  (7192, leBytes 4 11 ++ leBytes 2 1000 ++ [1, 1, 97])]

theorem sparseImage_describes (size : Fin 2) : (smallGeometry 1).Describes (sparseImage size) := by
  have first : ∀ {g}, g < (smallGeometry 1).layout.groupCount → g = 0 :=
    fun small => Nat.lt_one_iff.mp small
  refine ⟨exists_of_parsesTo (by revert size; decide), fun g group => ?_, fun g group => ?_,
    fun g group => ?_⟩ <;> obtain rfl := first group <;> clear first group <;> revert size <;>
    decide

theorem sparseImage_sound (size : Fin 2) :
    let m : Disk := (smallGeometry 1).carving.view (sparseImage size)
    SoundBlocks (smallGeometry 1) m ∧ m.Live (smallGeometry 1).layout 11 ∧ m.IsRegular 11 ∧
      2 ^ 32 * m.sizeHigh 11 + m.size 11 ≤ directBlockCount * (smallGeometry 1).layout.blockSize ∧
      m.size 11 = size := by
  intro m
  have same : m = readDisk (smallGeometry 1) (sparseImage size) := view_eq_readDisk _ _
  rw [same, sparseImage, Bytes.ofRuns_eq]
  simp only [List.foldr_cons, List.foldr_nil]
  refine ⟨BlocksCheck.sound ?_, ?_⟩
  · clear same m
    revert size
    decide
  · clear same m
    revert size
    decide

/-- A byte is put behind a file without blocks. -/
theorem appendToFile_appended_empty : ∃ after,
    appendToFile (smallGeometry 1).layout 11 [65] (sparseImage 0) = .ok () after ∧
      Appended (smallGeometry 1) (sparseImage 0) after
        ((smallGeometry 1).carving.view (sparseImage 0))
        ((smallGeometry 1).carving.view after) 11 [65] := by
  obtain ⟨sound, live, regular, size_le, size⟩ := sparseImage_sound 0
  have returns : (appendToFile (smallGeometry 1).layout 11 [65] (sparseImage 0)).any
      (fun _ _ => true) = true := by
    decide
  obtain ⟨u, after, run, -⟩ := Outcome.any_eq_true.mp returns
  refine ⟨after, run, appendToFile_appended (sparseImage_describes 0) rfl sound live regular size_le
    (.inr (.inl ?_)) run⟩
  rw [size]
  rfl

/-- Behind a file of one byte that is a hole, the byte goes into block 0 of the image and is
not read back. -/
theorem appendToFile_tail_hole :
    let m : Disk := (smallGeometry 1).carving.view (sparseImage 1)
    (smallGeometry 1).Describes (sparseImage 1) ∧ SoundBlocks (smallGeometry 1) m ∧
    m.Live (smallGeometry 1).layout 11 ∧ m.IsRegular 11 ∧ m.size 11 = 1 ∧ ∃ after,
      appendToFile (smallGeometry 1).layout 11 [65] (sparseImage 1) = .ok () after ∧
        ¬ Appended (smallGeometry 1) (sparseImage 1) after m
          ((smallGeometry 1).carving.view after) 11 [65] := by
  intro m
  obtain ⟨sound, live, regular, -, size⟩ := sparseImage_sound 1
  refine ⟨sparseImage_describes 1, sound, live, regular, size, ?_⟩
  have facts : (appendToFile (smallGeometry 1).layout 11 [65] (sparseImage 1)).any
      (fun _ after => (contentsOf (sparseImage 1) 11).any fun old =>
        (contentsOf after 11).any fun new => decide (new ≠ old ++ [65])) = true := by decide
  obtain ⟨u, after, run, facts⟩ := Outcome.any_eq_true.mp facts
  refine ⟨after, run, fun appended => ?_⟩
  obtain ⟨old, before, reads⟩ := appended.contents
  rw [before, reads] at facts
  exact of_decide_eq_true facts rfl

end Zaytos.Fs
