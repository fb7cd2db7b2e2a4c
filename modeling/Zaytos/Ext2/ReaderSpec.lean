import Zaytos.Ext2.Reader

set_option autoImplicit false

/-! What the reader computes on an accepted image. Each function of the reader gets one
equation, or one statement of its possible results, in which no checked operation is left:
the numbers `parse` accepts keep every sum and product in range. -/
namespace Zaytos.Fs

open Result (Sat)

theorem isPowerOfTwo16_eq_true {n : Nat} (h : isPowerOfTwo16 n = true) : ∃ k, n = 2 ^ k := by
  simp only [isPowerOfTwo16, List.any_eq_true, List.mem_range, beq_iff_eq] at h
  obtain ⟨k, -, eq⟩ := h
  exact ⟨k, eq⟩

/-- Byte position of the descriptor of group `g`. -/
def Layout.descriptorPos (L : Layout) (g : Nat) : Nat :=
  (L.firstDataBlock + 1) * L.blockSize + g * 32

/-- What holds of an image once `parse` has returned it. -/
structure Ext2.Valid (fs : Ext2) : Prop where
  wf : fs.layout.Wf
  superblock_le : superblockOffset + superblockMinLen ≤ fs.image.len
  blocks_le : fs.blocksCount * fs.blockSize ≤ fs.image.len
  table_le : fs.layout.descriptorPos fs.groupCount ≤ fs.image.len

section Bounds

variable {a s : Nat}

theorem block_mul_lt (ha : a < 2 ^ 32) (hs : s ≤ 65536) : a * s < 2 ^ 48 := by
  calc a * s ≤ a * 65536 := Nat.mul_le_mul_left a hs
    _ < 2 ^ 48 := by omega

end Bounds

theorem wantExtraIsizeOf_sat (image : Bytes) (inodeSize : Nat) :
    Sat (wantExtraIsizeOf image inodeSize)
      (fun want => want ≠ 0 → inodeCoreLen + want ≤ inodeSize) (fun _ => False) := by
  have fits : ∀ declared, Sat (if declared ≠ 0 ∧ inodeCoreLen + declared ≤ inodeSize
      then pure declared else pure 0 : Result Ext2Error Nat)
      (fun want => want ≠ 0 → inodeCoreLen + want ≤ inodeSize) (fun _ => False) := by
    intro declared
    split
    · rename_i inside
      exact fun _ => inside.2
    · exact fun nonzero => absurd rfl nonzero
  unfold wantExtraIsizeOf
  have pos : add64 superblockOffset superblockWantExtraIsize = some 1374 := rfl
  simp only [pos, Result.lift_some, Result.ok_bind]
  split
  · rename_i reach
    simp only [Bytes.readU16_of_le reach, Result.lift_some, Result.ok_bind]
    exact fits _
  · simp only [Result.pure_eq, Result.ok_bind]
    exact fits _

/-- The superblock as `parse` slices it. -/
def superblockOf (image : Bytes) : Bytes := ⟨104, fun k => image.get (1024 + k)⟩

theorem slice_superblock {image : Bytes} (long : 1128 ≤ image.len) :
    image.slice superblockOffset (superblockOffset + superblockMinLen) =
      some (superblockOf image) :=
  Bytes.slice_of_le (by decide) long

theorem superblock_readU16 (image : Bytes) {k : Nat} (h : k + 2 ≤ 104) :
    (superblockOf image).readU16 k = some (image.u16 (1024 + k)) := if_pos h

theorem superblock_readU32 (image : Bytes) {k : Nat} (h : k + 4 ≤ 104) :
    (superblockOf image).readU32 k = some (image.u32 (1024 + k)) := if_pos h

theorem parse_sat (image : Bytes) :
    Sat (Ext2.parse image) (fun fs => fs.Valid ∧ fs.image = image) (fun _ => True) := by
  by_cases long : image.len < 1128
  · have short : image.len < superblockOffset + superblockMinLen := long
    simp only [Ext2.parse, Result.rejectIf_bind, short, ↓reduceIte, Result.sat_err]
  have notShort : ¬ image.len < superblockOffset + superblockMinLen := long
  unfold Ext2.parse
  simp only [Result.rejectIf_bind, notShort, ↓reduceIte, slice_superblock (Nat.le_of_not_lt long),
    Result.lift_some, Result.ok_bind, superblock_readU16 image (k := 56) (by decide),
    superblock_readU16 image (k := 88) (by decide), superblock_readU32 image (k := 76) (by decide),
    superblock_readU32 image (k := 24) (by decide), superblock_readU32 image (k := 96) (by decide),
    superblock_readU32 image (k := 4) (by decide), superblock_readU32 image (k := 0) (by decide),
    superblock_readU32 image (k := 12) (by decide), superblock_readU32 image (k := 16) (by decide),
    superblock_readU32 image (k := 32) (by decide), superblock_readU32 image (k := 40) (by decide),
    superblock_readU32 image (k := 20) (by decide), superblock_readU32 image (k := 84) (by decide),
    superblock_readU32 image (k := 92) (by decide), superblock_readU32 image (k := 100) (by decide)]
  have countLt := image.u32_lt (1024 + 4)
  have inodesLt := image.u32_lt (1024 + 0)
  have perGroupLt := image.u32_lt (1024 + 32)
  have inodesPerGroupLt := image.u32_lt (1024 + 40)
  generalize image.u32 (1024 + 24) = shift
  generalize image.u16 (1024 + 88) = inodeSize
  generalize image.u32 (1024 + 4) = blocksCount at countLt ⊢
  generalize image.u32 (1024 + 0) = inodesCount at inodesLt ⊢
  generalize image.u32 (1024 + 32) = blocksPerGroup at perGroupLt ⊢
  generalize image.u32 (1024 + 40) = inodesPerGroup at inodesPerGroupLt ⊢
  generalize image.u32 (1024 + 20) = firstDataBlock
  split
  · trivial
  split
  · trivial
  split
  · trivial
  rename_i shiftSmall
  have pow : 2 ^ shift ≤ 2 ^ 6 := Nat.pow_le_pow_right (by omega) (by omega)
  rw [mul32_of_lt (by omega)]
  simp only [Result.lift_some, Result.ok_bind]
  split
  · trivial
  rename_i sizeOk
  simp only [not_or, Bool.not_eq_true', Bool.not_eq_false, not_lt] at sizeOk
  split
  · trivial
  split
  · trivial
  rename_i groups
  rw [Result.sat_bind]
  refine (wantExtraIsizeOf_sat image inodeSize).mono ?_ (fun _ _ h => h.elim)
  intro want _ wantFits
  have imageLt : blocksCount * (1024 * 2 ^ shift) < 2 ^ 48 := block_mul_lt countLt (by omega)
  rw [mul64_of_lt (by omega)]
  simp only [Result.lift_some, Result.ok_bind]
  split
  · trivial
  rename_i fits
  split
  · trivial
  rename_i first
  have tableLt : (firstDataBlock + 1) * (1024 * 2 ^ shift) < 2 ^ 48 :=
    block_mul_lt (by omega) (by omega)
  have groupsPos : 0 < blocksPerGroup := by omega
  have groupsLe : divCeil (blocksCount - firstDataBlock) blocksPerGroup ≤ blocksCount := by
    rw [divCeil_le_iff groupsPos]
    have := Nat.le_mul_of_pos_right blocksCount groupsPos
    omega
  rw [add32_of_lt (by omega)]
  simp only [Result.lift_some, Result.ok_bind, groupDescriptorSize]
  rw [mul64_of_lt (by omega)]
  simp only [Result.lift_some, Result.ok_bind]
  rw [mul64_of_lt (by omega)]
  simp only [Result.lift_some, Result.ok_bind]
  split
  · trivial
  split
  · trivial
  rename_i tableFits
  refine ⟨⟨⟨⟨shift, by omega, rfl⟩, sizeOk.1, isPowerOfTwo16_eq_true sizeOk.2.1, sizeOk.2.2,
    groupsPos, ?_, ?_, countLt, inodesLt, inodesPerGroupLt, perGroupLt, rfl, wantFits⟩,
    Nat.le_of_not_lt long, Nat.le_of_not_lt fits, ?_⟩, rfl⟩
  · show 0 < inodesPerGroup
    omega
  · show firstDataBlock < blocksCount
    omega
  · show (firstDataBlock + 1) * (1024 * 2 ^ shift) +
      divCeil (blocksCount - firstDataBlock) blocksPerGroup * 32 ≤ image.len
    omega

theorem parse_valid {image : Bytes} {fs : Ext2} (h : Ext2.parse image = .ok fs) :
    fs.Valid ∧ fs.image = image := by
  have := parse_sat image
  rwa [h] at this

/-- `parse` looks at the free counts without checking them, and at nothing else but the rest
of the superblock and the length. -/
theorem parse_of_same {image image' : Bytes} {fs : Ext2} (parsed : Ext2.parse image = .ok fs)
    (len : image'.len = image.len) (same : ∀ i, 1024 ≤ i → i < 2048 → i < 1036 ∨ 1044 ≤ i →
      image'.get i = image.get i) :
    Ext2.parse image' = .ok { fs with
      image := image'
      freeBlocksCount := image'.u32 1036
      freeInodesCount := image'.u32 1040 } := by
  have u32 : ∀ k, k + 4 ≤ 12 ∨ 20 ≤ k → k ≤ 100 → image'.u32 (1024 + k) = image.u32 (1024 + k) := by
    intro k apart small
    have same' : Bytes.SameOn image image' (1024 + k) 4 := by
      intro i lower upper
      exact same i (by omega) (by omega) (by omega)
    exact same'.u32 (le_rfl) (le_rfl)
  have u16 : ∀ k, 20 ≤ k → k ≤ 400 → image'.u16 (1024 + k) = image.u16 (1024 + k) := by
    intro k apart small
    have same' : Bytes.SameOn image image' (1024 + k) 2 := by
      intro i lower upper
      exact same i (by omega) (by omega) (by omega)
    exact same'.u16 (le_rfl) (le_rfl)
  have want : ∀ n, wantExtraIsizeOf image' n = wantExtraIsizeOf image n := by
    intro n
    have pos : add64 superblockOffset superblockWantExtraIsize = some 1374 := rfl
    have read : image'.readU16 1374 = image.readU16 1374 := by
      unfold Bytes.readU16
      rw [len, show image'.u16 1374 = image.u16 1374 from u16 350 (by decide) (by decide)]
    simp only [wantExtraIsizeOf, pos, Result.lift_some, Result.ok_bind, len, read]
  have long : ¬ image.len < superblockOffset + superblockMinLen := by
    intro short
    simp only [Ext2.parse, Result.rejectIf_bind, short, ↓reduceIte] at parsed
    cases parsed
  have long' : 1128 ≤ image.len := Nat.le_of_not_lt long
  unfold Ext2.parse at parsed ⊢
  simp only [Result.rejectIf_bind_eq_ok, slice_superblock long', slice_superblock (len ▸ long'),
    len, long, want, not_false_eq_true, true_and,
    Result.lift_some, Result.ok_bind, superblock_readU16 _ (k := 56) (by decide),
    superblock_readU16 _ (k := 88) (by decide), superblock_readU32 _ (k := 76) (by decide),
    superblock_readU32 _ (k := 24) (by decide), superblock_readU32 _ (k := 96) (by decide),
    superblock_readU32 _ (k := 4) (by decide), superblock_readU32 _ (k := 0) (by decide),
    superblock_readU32 _ (k := 12) (by decide), superblock_readU32 _ (k := 16) (by decide),
    superblock_readU32 _ (k := 32) (by decide), superblock_readU32 _ (k := 40) (by decide),
    superblock_readU32 _ (k := 20) (by decide), superblock_readU32 _ (k := 84) (by decide),
    superblock_readU32 _ (k := 92) (by decide), superblock_readU32 _ (k := 100) (by decide)] at parsed ⊢
  rw [u16 56 (by decide) (by decide), u16 88 (by decide) (by decide), u32 76 (by decide) (by decide),
    u32 24 (by decide) (by decide), u32 96 (by decide) (by decide), u32 4 (by decide) (by decide),
    u32 0 (by decide) (by decide), u32 32 (by decide) (by decide), u32 40 (by decide) (by decide),
    u32 20 (by decide) (by decide), u32 84 (by decide) (by decide), u32 92 (by decide) (by decide),
    u32 100 (by decide) (by decide)]
  simp only [Result.bind_eq_ok, Result.lift_eq_ok] at parsed ⊢
  obtain ⟨magic, rev, shift, blockSize, isSize, _, sizeOk, _, features, _, groups, extra, isExtra,
    needed, isNeeded, _, fits, _, first, tableBlock, isTableBlock, tableStart, isTableStart,
    tableLen, isTableLen, _, small, _, inside, result⟩ := parsed
  obtain rfl := Result.ok.inj result
  exact ⟨magic, rev, shift, blockSize, isSize, (), sizeOk, (), features, (), groups, extra,
    isExtra, needed, isNeeded, (), fits, (), first, tableBlock, isTableBlock, tableStart,
    isTableStart, tableLen, isTableLen, (), small, (), inside, rfl⟩

section Accepted

variable {fs : Ext2} (valid : fs.Valid)

include valid

theorem Ext2.Valid.block_le {b : Nat} (h : b < fs.blocksCount) :
    b * fs.blockSize + fs.blockSize ≤ fs.image.len := by
  have step : (b + 1) * fs.blockSize ≤ fs.blocksCount * fs.blockSize :=
    Nat.mul_le_mul_right _ h
  have := valid.blocks_le
  rw [Nat.succ_mul] at step
  omega

theorem blockBytes_of_lt {b : Nat} (h : b < fs.blocksCount) :
    fs.blockBytes b = .ok ⟨fs.blockSize, fun k => fs.image.get (b * fs.blockSize + k)⟩ := by
  have countLt : fs.blocksCount < 2 ^ 32 := valid.wf.blocksCount_lt
  have sizeLe : fs.blockSize ≤ 65536 := valid.wf.blockSize_le
  have small : b * fs.blockSize < 2 ^ 48 := block_mul_lt (by omega) sizeLe
  have inside := valid.block_le h
  unfold Ext2.blockBytes
  rw [mul64_of_lt (by omega)]
  simp only [Result.rejectIf_bind, not_le.mpr h, ↓reduceIte, Result.lift_some, Result.ok_bind]
  rw [add64_of_lt (by omega)]
  simp only [Result.lift_some, Result.ok_bind, not_lt.mpr inside, ↓reduceIte]
  rw [Bytes.slice_of_le (by omega) inside, Result.lift_some, Nat.add_sub_cancel_left]

omit valid in
theorem blockBytes_of_ge {b : Nat} (h : fs.blocksCount ≤ b) :
    fs.blockBytes b = .err (.blockOutOfRange b) := by
  simp only [Ext2.blockBytes, Result.rejectIf_bind, h, ↓reduceIte]

end Accepted

/-- The descriptor stored at byte `pos`. -/
def descriptorOf (image : Bytes) (pos : Nat) : BlockGroupDescriptor where
  blockBitmap := image.u32 pos
  inodeBitmap := image.u32 (pos + 4)
  inodeTable := image.u32 (pos + 8)
  freeBlocksCount := image.u16 (pos + 12)
  freeInodesCount := image.u16 (pos + 14)
  usedDirsCount := image.u16 (pos + 16)

def BlockGroupDescriptor.Inside (d : BlockGroupDescriptor) (blocksCount : Nat) : Prop :=
  d.blockBitmap < blocksCount ∧ d.inodeBitmap < blocksCount ∧ d.inodeTable < blocksCount

/-- The inode stored at byte `pos`. -/
def inodeOf (image : Bytes) (pos ino : Nat) : Inode where
  number := ino
  mode := image.u16 pos
  size :=
    if formatOf (image.u16 pos) = modeRegular
      then joinSize (image.u32 (pos + 4)) (image.u32 (pos + 108)) else image.u32 (pos + 4)
  linksCount := image.u16 (pos + 26)
  blocks512 := image.u32 (pos + 28)
  blocks := (List.range inodeBlockCount).map fun slot => image.u32 (pos + (40 + slot * 4))

@[simp] theorem length_inodeOf_blocks (image : Bytes) (pos ino : Nat) :
    (inodeOf image pos ino).blocks.length = 15 := by
  simp [inodeOf, inodeBlockCount]

theorem getElem_inodeOf_blocks (image : Bytes) (pos ino : Nat) {slot : Nat} (h : slot < 15) :
    (inodeOf image pos ino).blocks[slot]? = some (image.u32 (pos + (40 + slot * 4))) := by
  simp [inodeOf, inodeBlockCount, h]

theorem inodeOf_block (image : Bytes) (pos ino : Nat) {slot : Nat} (h : slot < 15) :
    (inodeOf image pos ino).block slot = image.u32 (pos + (40 + slot * 4)) := by
  simp [Inode.block, List.getD_eq_getElem?_getD, getElem_inodeOf_blocks image pos ino h]

/-- Byte position of inode `ino`, through the table pointer of its group. -/
def Layout.inodePos (L : Layout) (image : Bytes) (ino : Nat) : Nat :=
  image.u32 (L.descriptorPos ((ino - 1) / L.inodesPerGroup) + 8) * L.blockSize +
    (ino - 1) % L.inodesPerGroup * L.inodeSize

/-- Everything `Ext2::inode` checks about number `ino`. -/
structure Ext2.Readable (fs : Ext2) (ino : Nat) : Prop where
  pos : 0 < ino
  le : ino ≤ fs.inodesCount
  group_lt : (ino - 1) / fs.inodesPerGroup < fs.groupCount
  inside : (descriptorOf fs.image
    (fs.layout.descriptorPos ((ino - 1) / fs.inodesPerGroup))).Inside fs.blocksCount
  slot_le : fs.layout.inodePos fs.image ino + 128 ≤ fs.image.len
  blocks : ∀ slot < 15, ∀ b, fs.image.u32 (fs.layout.inodePos fs.image ino + (40 + slot * 4)) = b →
    b ≠ 0 → b < fs.blocksCount

section Accepted

variable {fs : Ext2} (valid : fs.Valid)

omit valid in
theorem checkBlocks_sat (blocks : List Nat) :
    Sat (fs.checkBlocks blocks) (fun _ => ∀ b ∈ blocks, b < fs.blocksCount) (fun _ => True) := by
  induction blocks with
  | nil => simp [Ext2.checkBlocks]
  | cons block rest ih =>
      rw [Ext2.checkBlocks, Result.rejectIf_bind]
      split
      · trivial
      · rename_i small
        refine ih.mono ?_ (fun _ _ _ => trivial)
        intro _ _ tail b member
        rcases List.mem_cons.mp member with rfl | member
        · omega
        · exact tail b member

omit valid in
theorem checkBlocks_of {blocks : List Nat} (h : ∀ b ∈ blocks, b < fs.blocksCount) :
    fs.checkBlocks blocks = .ok () := by
  induction blocks with
  | nil => rfl
  | cons block rest ih =>
      have head : ¬ fs.blocksCount ≤ block := not_le.mpr (h block (by simp))
      rw [Ext2.checkBlocks, Result.rejectIf_bind, if_neg head]
      exact ih (fun b member => h b (List.mem_cons_of_mem _ member))

include valid

theorem Ext2.Valid.descriptor_le {g : Nat} (h : g < fs.groupCount) :
    fs.layout.descriptorPos g + 32 ≤ fs.image.len := by
  have := valid.table_le
  unfold Layout.descriptorPos at *
  omega

theorem Ext2.Valid.descriptorPos_lt {g : Nat} (h : g < fs.groupCount) :
    (fs.firstDataBlock + 1) * fs.blockSize < 2 ^ 48 ∧ fs.layout.descriptorPos g < 2 ^ 49 := by
  have firstLt : fs.firstDataBlock < fs.blocksCount := valid.wf.firstDataBlock_lt
  have countLt : fs.blocksCount < 2 ^ 32 := valid.wf.blocksCount_lt
  have sizeLe : fs.blockSize ≤ 65536 := valid.wf.blockSize_le
  have groupLt : fs.groupCount < 2 ^ 32 := valid.wf.groupCount_lt
  have small : (fs.firstDataBlock + 1) * fs.blockSize < 2 ^ 48 := block_mul_lt (by omega) sizeLe
  refine ⟨small, ?_⟩
  show (fs.firstDataBlock + 1) * fs.blockSize + g * 32 < 2 ^ 49
  omega

theorem groupDescriptor_of_lt {g : Nat} (h : g < fs.groupCount) :
    fs.groupDescriptor g = (do
      let d := descriptorOf fs.image (fs.layout.descriptorPos g)
      fs.checkBlocks [d.blockBitmap, d.inodeBitmap, d.inodeTable]
      pure d) := by
  have firstLt : fs.firstDataBlock < fs.blocksCount := valid.wf.firstDataBlock_lt
  have countLt : fs.blocksCount < 2 ^ 32 := valid.wf.blocksCount_lt
  have groupLt : fs.groupCount < 2 ^ 32 := valid.wf.groupCount_lt
  have inside := valid.descriptor_le h
  obtain ⟨startLt, posLt⟩ := valid.descriptorPos_lt h
  have posEq : fs.layout.descriptorPos g = (fs.firstDataBlock + 1) * fs.blockSize + g * 32 := rfl
  unfold Ext2.groupDescriptor
  simp only [Result.rejectIf_bind, not_le.mpr h, ↓reduceIte, groupDescriptorSize]
  rw [add32_of_lt (by omega), Result.lift_some, Result.ok_bind, mul64_of_lt (by omega),
    Result.lift_some, Result.ok_bind, mul64_of_lt (by omega), Result.lift_some, Result.ok_bind,
    add64_of_lt (by omega), Result.lift_some, Result.ok_bind, ← posEq, add64_of_lt (by omega),
    Result.lift_some, Result.ok_bind, if_neg (not_lt.mpr inside),
    Bytes.slice_of_le (by omega) inside, Result.lift_some, Result.ok_bind]
  have width : fs.layout.descriptorPos g + 32 - fs.layout.descriptorPos g = 32 := by omega
  simp only [width]
  rfl

theorem groupDescriptor_sat {g : Nat} :
    Sat (fs.groupDescriptor g) (fun d => g < fs.groupCount ∧
      d = descriptorOf fs.image (fs.layout.descriptorPos g) ∧ d.Inside fs.blocksCount)
      (fun _ => True) := by
  by_cases h : g < fs.groupCount
  · rw [groupDescriptor_of_lt valid h, Result.sat_bind]
    refine (checkBlocks_sat _).mono ?_ (fun _ _ _ => trivial)
    intro _ _ inside
    exact ⟨h, rfl, inside _ (by simp), inside _ (by simp), inside _ (by simp)⟩
  · simp only [Ext2.groupDescriptor, Result.rejectIf_bind, Nat.le_of_not_lt h, ↓reduceIte,
      Result.sat_err]

theorem groupDescriptor_of_inside {g : Nat} (h : g < fs.groupCount)
    (inside : (descriptorOf fs.image (fs.layout.descriptorPos g)).Inside fs.blocksCount) :
    fs.groupDescriptor g = .ok (descriptorOf fs.image (fs.layout.descriptorPos g)) := by
  rw [groupDescriptor_of_lt valid h]
  have checked : fs.checkBlocks [(descriptorOf fs.image (fs.layout.descriptorPos g)).blockBitmap,
      (descriptorOf fs.image (fs.layout.descriptorPos g)).inodeBitmap,
      (descriptorOf fs.image (fs.layout.descriptorPos g)).inodeTable] = .ok () := by
    apply checkBlocks_of
    intro b member
    simp only [List.mem_cons, List.not_mem_nil, or_false] at member
    rcases member with rfl | rfl | rfl
    · exact inside.1
    · exact inside.2.1
    · exact inside.2.2
  simp only [checked, Result.ok_bind, Result.pure_eq]

omit valid in
theorem readSlots_sat {raw : Bytes} (remaining : Nat) :
    ∀ slot, 40 + (slot + remaining) * 4 ≤ raw.len →
    Sat (fs.readSlots raw slot remaining)
      (fun blocks => blocks = (List.range remaining).map (fun k => raw.u32 (40 + (slot + k) * 4)) ∧
        ∀ k < remaining, raw.u32 (40 + (slot + k) * 4) ≠ 0 →
          raw.u32 (40 + (slot + k) * 4) < fs.blocksCount)
      (fun _ => True) := by
  induction remaining with
  | zero =>
      intro slot _
      exact ⟨rfl, fun k small => absurd small (Nat.not_lt_zero k)⟩
  | succ remaining ih =>
      intro slot inside
      rw [Ext2.readSlots, Bytes.readU32_of_le (by omega), Result.lift_some, Result.ok_bind,
        Result.rejectIf_bind]
      split
      · trivial
      · rename_i small
        rw [Result.sat_bind]
        refine (ih (slot + 1) (by omega)).mono ?_ (fun _ _ _ => trivial)
        rintro rest _ ⟨restEq, restSmall⟩
        constructor
        · rw [restEq, List.range_succ_eq_map, List.map_cons, List.map_map]
          congr 1
          apply List.map_congr_left
          intro k _
          simp only [Function.comp, add_assoc, add_comm 1 k]
        · intro k hk nonzero
          cases k with
          | zero =>
              rw [add_zero] at nonzero ⊢
              exact not_le.mp fun outside => small ⟨nonzero, outside⟩
          | succ k =>
              have shift : slot + (k + 1) = slot + 1 + k := by omega
              rw [shift] at nonzero ⊢
              exact restSmall k (by omega) nonzero

omit valid in
theorem readSlots_of {raw : Bytes} (remaining : Nat) :
    ∀ slot, 40 + (slot + remaining) * 4 ≤ raw.len →
    (∀ k < remaining, raw.u32 (40 + (slot + k) * 4) ≠ 0 →
      raw.u32 (40 + (slot + k) * 4) < fs.blocksCount) →
    ∃ blocks, fs.readSlots raw slot remaining = .ok blocks := by
  induction remaining with
  | zero =>
      intro slot _ _
      exact ⟨[], rfl⟩
  | succ remaining ih =>
      intro slot inside small
      have head : ¬ (raw.u32 (40 + slot * 4) ≠ 0 ∧ fs.blocksCount ≤ raw.u32 (40 + slot * 4)) := by
        rintro ⟨nonzero, outside⟩
        have := small 0 (by omega)
        rw [add_zero] at this
        exact not_lt.mpr outside (this nonzero)
      obtain ⟨rest, restOk⟩ := ih (slot + 1) (by omega) (by
        intro k hk
        have := small (k + 1) (by omega)
        rwa [show slot + (k + 1) = slot + 1 + k by omega] at this)
      exact ⟨_, by rw [Ext2.readSlots, Bytes.readU32_of_le (by omega), Result.lift_some,
        Result.ok_bind, Result.rejectIf_bind, if_neg head, restOk, Result.ok_bind, Result.pure_eq]⟩

theorem inode_of_group {ino : Nat} (pos : 0 < ino) (le : ino ≤ fs.inodesCount)
    (group : (ino - 1) / fs.inodesPerGroup < fs.groupCount)
    (inside : (descriptorOf fs.image
      (fs.layout.descriptorPos ((ino - 1) / fs.inodesPerGroup))).Inside fs.blocksCount) :
    fs.inode ino =
      if fs.layout.inodePos fs.image ino + 128 ≤ fs.image.len then do
        let _ ← fs.readSlots ⟨128, fun k => fs.image.get (fs.layout.inodePos fs.image ino + k)⟩ 0 15
        pure (inodeOf fs.image (fs.layout.inodePos fs.image ino) ino)
      else .err (.inodeTableOutOfRange ino (fs.layout.inodePos fs.image ino + 128)) := by
  have perGroup : fs.inodesPerGroup ≠ 0 := Nat.pos_iff_ne_zero.mp valid.wf.inodesPerGroup_pos
  have perGroupLt : fs.inodesPerGroup < 2 ^ 32 := valid.wf.inodesPerGroup_lt
  have countLt : fs.blocksCount < 2 ^ 32 := valid.wf.blocksCount_lt
  have sizeLe : fs.blockSize ≤ 65536 := valid.wf.blockSize_le
  have inodeSizeLe : fs.inodeSize ≤ fs.blockSize := valid.wf.inodeSize_le
  have indexLt : (ino - 1) % fs.inodesPerGroup < 2 ^ 32 :=
    lt_of_lt_of_le (Nat.mod_lt _ (Nat.pos_of_ne_zero perGroup)) (le_of_lt perGroupLt)
  have skippedLt : (ino - 1) % fs.inodesPerGroup * fs.inodeSize < 2 ^ 48 :=
    block_mul_lt indexLt (by omega)
  have tableLt : (descriptorOf fs.image (fs.layout.descriptorPos
      ((ino - 1) / fs.inodesPerGroup))).inodeTable * fs.blockSize < 2 ^ 48 :=
    block_mul_lt (by have := inside.2.2; omega) sizeLe
  have posEq : (descriptorOf fs.image (fs.layout.descriptorPos
      ((ino - 1) / fs.inodesPerGroup))).inodeTable * fs.blockSize +
      (ino - 1) % fs.inodesPerGroup * fs.inodeSize = fs.layout.inodePos fs.image ino := rfl
  have small : fs.layout.inodePos fs.image ino + 128 < 2 ^ 64 - 1 := by omega
  unfold Ext2.inode
  rw [Result.rejectIf_bind, if_neg (by omega), sub_of_le (by omega), Result.lift_some,
    Result.ok_bind, div_of_ne perGroup, Result.lift_some, Result.ok_bind, rem_of_ne perGroup,
    Result.lift_some, Result.ok_bind, groupDescriptor_of_inside valid group inside, Result.ok_bind,
    mul64_of_lt (by omega), Result.lift_some, Result.ok_bind, mul64_of_lt (by omega),
    Result.lift_some, Result.ok_bind, add64_of_lt (by omega), Result.lift_some, Result.ok_bind]
  simp only [posEq, inodeCoreLen, min_eq_left (le_of_lt small), Result.rejectIf_bind]
  by_cases reach : fs.layout.inodePos fs.image ino + 128 ≤ fs.image.len
  · rw [if_neg (not_lt.mpr reach), if_pos reach, Bytes.slice_of_le (by omega) reach,
      Result.lift_some, Result.ok_bind, Nat.add_sub_cancel_left]
    rw [Bytes.readU16_of_le (by show 0 + 2 ≤ 128; omega), Result.lift_some, Result.ok_bind]
    have slots := @readSlots_sat fs ⟨128, fun k => fs.image.get
      (fs.layout.inodePos fs.image ino + k)⟩ 15 0 (by show 40 + (0 + 15) * 4 ≤ 128; omega)
    simp only [inodeBlockCount]
    cases result : fs.readSlots ⟨128, fun k => fs.image.get (fs.layout.inodePos fs.image ino + k)⟩
        0 15 with
    | fault => simp only [Result.fault_bind]
    | err e => simp only [Result.err_bind]
    | ok blocks =>
        rw [result] at slots
        rw [Result.ok_bind, Result.ok_bind, Bytes.readU32_of_le (by show 4 + 4 ≤ 128; omega),
          Result.lift_some, Result.ok_bind]
        rw [slots.1]
        simp only [zero_add, Bytes.u16_shift, Bytes.u32_shift, add_zero]
        by_cases regular : formatOf (fs.image.u16 (fs.layout.inodePos fs.image ino)) = modeRegular
        · rw [if_pos regular, Bytes.readU32_of_le (by show 108 + 4 ≤ 128; omega)]
          simp only [Result.lift_some, Result.ok_bind, Result.pure_eq]
          rw [Bytes.readU16_of_le (by show 26 + 2 ≤ 128; omega), Result.lift_some, Result.ok_bind,
            Bytes.readU32_of_le (by show 28 + 4 ≤ 128; omega), Result.lift_some, Result.ok_bind]
          simp only [inodeOf, if_pos regular, Bytes.u16_shift, Bytes.u32_shift,
            inodeBlockCount]
        · rw [if_neg regular]
          simp only [Result.ok_bind, Result.pure_eq]
          rw [Bytes.readU16_of_le (by show 26 + 2 ≤ 128; omega), Result.lift_some, Result.ok_bind,
            Bytes.readU32_of_le (by show 28 + 4 ≤ 128; omega), Result.lift_some, Result.ok_bind]
          simp only [inodeOf, if_neg regular, Bytes.u16_shift, Bytes.u32_shift,
            inodeBlockCount]
  · rw [if_pos (Nat.lt_of_not_le reach), if_neg reach]

theorem inode_sat (ino : Nat) :
    Sat (fs.inode ino)
      (fun i => fs.Readable ino ∧ i = inodeOf fs.image (fs.layout.inodePos fs.image ino) ino)
      (fun _ => True) := by
  by_cases range : ino = 0 ∨ fs.inodesCount < ino
  · simp only [Ext2.inode, Result.rejectIf_bind, range, ↓reduceIte, Result.sat_err]
  have perGroup : fs.inodesPerGroup ≠ 0 := Nat.pos_iff_ne_zero.mp valid.wf.inodesPerGroup_pos
  have descriptor := @groupDescriptor_sat fs valid ((ino - 1) / fs.inodesPerGroup)
  cases result : fs.groupDescriptor ((ino - 1) / fs.inodesPerGroup) with
  | fault => rw [result] at descriptor; exact descriptor.elim
  | err e =>
      unfold Ext2.inode
      rw [Result.rejectIf_bind, if_neg range, sub_of_le (by omega), Result.lift_some,
        Result.ok_bind, div_of_ne perGroup, Result.lift_some, Result.ok_bind, rem_of_ne perGroup,
        Result.lift_some, Result.ok_bind, result, Result.err_bind, Result.sat_err]
      trivial
  | ok d =>
      rw [result] at descriptor
      obtain ⟨group, rfl, inside⟩ := descriptor
      rw [inode_of_group valid (by omega) (by omega) group inside]
      split
      · rename_i reach
        rw [Result.sat_bind]
        refine (@readSlots_sat fs ⟨128, _⟩ 15 0 (by show 40 + (0 + 15) * 4 ≤ 128; omega)).mono ?_
          (fun _ _ _ => trivial)
        rintro blocks - ⟨-, slots⟩
        refine ⟨⟨by omega, by omega, group, inside, reach, ?_⟩, rfl⟩
        intro slot small b eq nonzero
        have := slots slot small
        rw [zero_add] at this
        subst eq
        exact this nonzero
      · trivial

theorem inode_of_readable {ino : Nat} (h : fs.Readable ino) :
    fs.inode ino = .ok (inodeOf fs.image (fs.layout.inodePos fs.image ino) ino) := by
  rw [inode_of_group valid h.pos h.le h.group_lt h.inside, if_pos h.slot_le]
  obtain ⟨blocks, ok⟩ := @readSlots_of fs
    ⟨128, fun k => fs.image.get (fs.layout.inodePos fs.image ino + k)⟩ 15 0
    (by show 40 + (0 + 15) * 4 ≤ 128; omega) (by
      intro k small nonzero
      rw [zero_add] at nonzero ⊢
      exact h.blocks k small _ rfl nonzero)
  rw [ok, Result.ok_bind, Result.pure_eq]

theorem inode_eq_ok {ino : Nat} {i : Inode} :
    fs.inode ino = .ok i ↔
      fs.Readable ino ∧ i = inodeOf fs.image (fs.layout.inodePos fs.image ino) ino := by
  constructor
  · intro ok
    have sat := inode_sat valid ino
    rwa [ok] at sat
  · rintro ⟨readable, rfl⟩
    exact inode_of_readable valid readable

omit valid in
theorem blockNumberOf_direct {i : Inode} {index : Nat} (length : i.blocks.length = 15)
    (direct : index < 12) : fs.blockNumberOf i index = .ok (i.block index) := by
  have inside : index < i.blocks.length := by omega
  simp only [Ext2.blockNumberOf, directBlockCount, direct, ↓reduceIte, Inode.block,
    List.getElem?_eq_getElem inside, List.getD_eq_getElem?_getD, Option.getD_some, Result.lift_some]

theorem blockNumberOf_indirect {i : Inode} {index : Nat} (length : i.blocks.length = 15)
    (above : 12 ≤ index) (within : index - 12 < fs.blockSize / 4) :
    fs.blockNumberOf i index =
      if i.block 12 = 0 then .ok 0
      else if i.block 12 < fs.blocksCount
        then .ok (fs.image.u32 (i.block 12 * fs.blockSize + (index - 12) * 4))
        else .err (.blockOutOfRange (i.block 12)) := by
  have slot : i.blocks[12]? = some (i.block 12) := by
    have inside : 12 < i.blocks.length := by omega
    simp only [Inode.block, List.getD_eq_getElem?_getD, List.getElem?_eq_getElem inside,
      Option.getD_some]
  have sizeLe : fs.blockSize ≤ 65536 := valid.wf.blockSize_le
  have entries : ¬ fs.blockSize / indirectEntrySize ≤ index - 12 := not_le.mpr within
  unfold Ext2.blockNumberOf
  simp only [directBlockCount, singleIndirectSlot, not_lt.mpr above, ↓reduceIte,
    sub_of_le above, Result.lift_some, Result.ok_bind, Result.rejectIf_bind, entries, slot,
    Result.pure_eq]
  by_cases hole : i.block 12 = 0
  · rw [if_pos hole, if_pos hole]
  rw [if_neg hole, if_neg hole]
  by_cases inside : i.block 12 < fs.blocksCount
  · have fits : (index - 12) * 4 + 4 ≤ fs.blockSize := by omega
    have small : (index - 12) * indirectEntrySize < 2 ^ 32 := by
      simp only [indirectEntrySize]
      omega
    rw [if_pos inside, blockBytes_of_lt valid inside, Result.ok_bind, mul32_of_lt small,
      Result.lift_some, Result.ok_bind]
    refine (if_neg (not_lt.mpr fits)).trans ?_
    rw [Bytes.readU32_of_le fits, Result.lift_some, Bytes.u32_shift]
  · rw [if_neg inside, blockBytes_of_ge (Nat.le_of_not_lt inside), Result.err_bind]

omit valid in
theorem blockNumberOf_beyond {i : Inode} {index : Nat} (above : 12 ≤ index)
    (beyond : fs.blockSize / 4 ≤ index - 12) :
    fs.blockNumberOf i index = .err (.indirectBlockUnsupported index) := by
  unfold Ext2.blockNumberOf
  simp only [directBlockCount, indirectEntrySize, not_lt.mpr above, ↓reduceIte,
    sub_of_le above, Result.lift_some, Result.ok_bind, Result.rejectIf_bind, beyond]

theorem zeroBlock_eq : Ext2.zeroBlock fs.blockSize = some ⟨fs.blockSize, fun _ => 0⟩ := by
  have sizeLe : fs.blockSize ≤ 65536 := valid.wf.blockSize_le
  exact Bytes.slice_of_le (Nat.zero_le _) sizeLe

/-- The contents of block `b` of the image as a file sees it; block 0 is a hole. -/
def blockData (image : Bytes) (blockSize b : Nat) : Nat → UInt8 :=
  if b = 0 then fun _ => 0 else fun k => image.get (b * blockSize + k)

theorem fileBlock_of_number {i : Inode} {index b : Nat} (indexLt : index < 2 ^ 32)
    (before : index * fs.blockSize < i.size) (supported : i.usesUnsupportedIndirection = false)
    (number : fs.blockNumberOf i index = .ok b) (inside : b ≠ 0 → b < fs.blocksCount) :
    fs.fileBlock i index = .ok ⟨min (i.size - index * fs.blockSize) fs.blockSize,
      blockData fs.image fs.blockSize b⟩ := by
  have sizeLe : fs.blockSize ≤ 65536 := valid.wf.blockSize_le
  have small : index * fs.blockSize < 2 ^ 48 := block_mul_lt indexLt sizeLe
  unfold Ext2.fileBlock
  rw [mul64_of_lt (by omega)]
  simp only [Result.lift_some, Result.ok_bind, Result.rejectIf_bind, not_le.mpr before,
    supported, Bool.false_eq_true, ↓reduceIte, number, sub_of_le (le_of_lt before)]
  by_cases hole : b = 0
  · rw [if_pos hole, zeroBlock_eq valid, Result.lift_some, Result.ok_bind,
      Bytes.slice_of_le (Nat.zero_le _) (min_le_right _ _), Result.lift_some]
    simp [blockData, hole]
  · rw [if_neg hole, blockBytes_of_lt valid (inside hole), Result.ok_bind,
      Bytes.slice_of_le (Nat.zero_le _) (min_le_right _ _), Result.lift_some]
    simp [blockData, hole]

theorem fileBlock_sat {i : Inode} {index : Nat} (length : i.blocks.length = 15)
    (indexLt : index < 2 ^ 32) :
    Sat (fs.fileBlock i index) (fun bytes => index * fs.blockSize < i.size ∧
      bytes.len = min (i.size - index * fs.blockSize) fs.blockSize) (fun _ => True) := by
  have sizeLe : fs.blockSize ≤ 65536 := valid.wf.blockSize_le
  have small : index * fs.blockSize < 2 ^ 48 := block_mul_lt indexLt sizeLe
  have refused : ∀ e, fs.blockNumberOf i index = .err e → Sat (fs.fileBlock i index)
      (fun bytes => index * fs.blockSize < i.size ∧
        bytes.len = min (i.size - index * fs.blockSize) fs.blockSize) (fun _ => True) := by
    intro e failed
    unfold Ext2.fileBlock
    rw [mul64_of_lt (by omega)]
    simp only [Result.lift_some, Result.ok_bind, Result.rejectIf_bind, failed, Result.err_bind]
    split
    · trivial
    · split <;> trivial
  have read : ∀ b, fs.blockNumberOf i index = .ok b → Sat (fs.fileBlock i index)
      (fun bytes => index * fs.blockSize < i.size ∧
        bytes.len = min (i.size - index * fs.blockSize) fs.blockSize) (fun _ => True) := by
    intro b number
    unfold Ext2.fileBlock
    rw [mul64_of_lt (by omega)]
    simp only [Result.lift_some, Result.ok_bind, Result.rejectIf_bind, number]
    split
    · trivial
    rename_i before
    split
    · trivial
    rw [sub_of_le (by omega)]
    by_cases hole : b = 0
    · rw [if_pos hole, zeroBlock_eq valid, Result.lift_some, Result.ok_bind, Result.lift_some,
        Result.ok_bind, Bytes.slice_of_le (Nat.zero_le _) (min_le_right _ _), Result.lift_some]
      exact ⟨by omega, Nat.sub_zero _⟩
    rw [if_neg hole]
    by_cases inside : b < fs.blocksCount
    · rw [blockBytes_of_lt valid inside, Result.ok_bind, Result.lift_some, Result.ok_bind,
        Bytes.slice_of_le (Nat.zero_le _) (min_le_right _ _), Result.lift_some]
      exact ⟨by omega, Nat.sub_zero _⟩
    · rw [blockBytes_of_ge (Nat.le_of_not_lt inside)]
      trivial
  by_cases direct : index < 12
  · exact read _ (blockNumberOf_direct length direct)
  by_cases beyond : fs.blockSize / 4 ≤ index - 12
  · exact refused _ (blockNumberOf_beyond (by omega) beyond)
  have table := blockNumberOf_indirect valid length (by omega) (Nat.lt_of_not_le beyond)
  split at table
  · exact read _ table
  · split at table
    · exact read _ table
    · exact refused _ table

end Accepted

end Zaytos.Fs
