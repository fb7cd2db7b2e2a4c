import Zaytos.Ext2.Walk
import Zaytos.Ext2.Writer

set_option autoImplicit false

/-! A block of a directory as a chain of records, and what splitting and merging records does
to it. Positions are relative to the slice the chain is in. -/
namespace Zaytos.Fs

/-- The records of `d` from `pos` on, up to exactly `stop`, stand at the positions of the
list. -/
def Chain (d : Bytes) (stop : Nat) : Nat → List Nat → Prop
  | pos, [] => pos = stop
  | pos, p :: rest =>
      p = pos ∧ 4 ∣ (recordAt d p).recLen ∧
        8 + (recordAt d p).nameLen ≤ (recordAt d p).recLen ∧
        Chain d stop (p + (recordAt d p).recLen) rest

instance Chain.decidable (d : Bytes) (stop : Nat) : ∀ pos ps, Decidable (Chain d stop pos ps)
  | pos, [] => inferInstanceAs (Decidable (pos = stop))
  | pos, p :: rest =>
      have := Chain.decidable d stop (p + (recordAt d p).recLen) rest
      inferInstanceAs (Decidable (p = pos ∧ 4 ∣ (recordAt d p).recLen ∧
        8 + (recordAt d p).nameLen ≤ (recordAt d p).recLen ∧
        Chain d stop (p + (recordAt d p).recLen) rest))

/-- Follow the records from `pos`, for at most `fuel` of them. -/
def positionsFrom (d : Bytes) (stop : Nat) : Nat → Nat → List Nat
  | 0, _ => []
  | fuel + 1, pos =>
      if pos < stop then pos :: positionsFrom d stop fuel (pos + (recordAt d pos).recLen) else []

/-- The positions of the records in the first `stop` bytes. -/
def positions (d : Bytes) (stop : Nat) : List Nat := positionsFrom d stop stop 0

/-- How many records of the block name inode `ino`. -/
def refsIn (d : Bytes) (stop ino : Nat) : Nat :=
  (positions d stop).countP fun p => (recordAt d p).inode == ino

namespace Chain

variable {d d' : Bytes} {stop pos p : Nat} {ps l r : List Nat}

theorem le (chain : Chain d stop pos ps) : pos ≤ stop := by
  induction ps generalizing pos with
  | nil => exact le_of_eq chain
  | cons p rest ih =>
    obtain ⟨rfl, -, -, tail⟩ := chain
    exact le_trans (Nat.le_add_right _ _) (ih tail)

theorem length_le (chain : Chain d stop pos ps) : ps.length * 8 + pos ≤ stop := by
  induction ps generalizing pos with
  | nil => simp [show pos = stop from chain]
  | cons p rest ih =>
    obtain ⟨rfl, -, long, tail⟩ := chain
    have := ih tail
    simp only [List.length_cons]
    omega

theorem mem_bounds (chain : Chain d stop pos ps) (mem : p ∈ ps) :
    pos ≤ p ∧ 4 ∣ (recordAt d p).recLen ∧ 8 + (recordAt d p).nameLen ≤ (recordAt d p).recLen ∧
      p + (recordAt d p).recLen ≤ stop := by
  induction ps generalizing pos with
  | nil => cases mem
  | cons q rest ih =>
    obtain ⟨rfl, aligned, long, tail⟩ := chain
    rcases List.mem_cons.mp mem with rfl | later
    · exact ⟨le_rfl, aligned, long, tail.le⟩
    · obtain ⟨lower, rest⟩ := ih tail later
      exact ⟨by omega, rest⟩

theorem append_iff : Chain d stop pos (l ++ r) ↔
    ∃ middle, Chain d middle pos l ∧ Chain d stop middle r := by
  induction l generalizing pos with
  | nil =>
    constructor
    · intro chain
      exact ⟨pos, rfl, chain⟩
    · rintro ⟨middle, rfl, chain⟩
      exact chain
  | cons p rest ih =>
    constructor
    · rintro ⟨rfl, aligned, long, tail⟩
      obtain ⟨middle, first, second⟩ := ih.mp tail
      exact ⟨middle, ⟨rfl, aligned, long, first⟩, second⟩
    · rintro ⟨middle, ⟨rfl, aligned, long, first⟩, second⟩
      exact ⟨rfl, aligned, long, ih.mpr ⟨middle, first, second⟩⟩

theorem split_iff : Chain d stop pos (l ++ p :: r) ↔
    Chain d p pos l ∧ 4 ∣ (recordAt d p).recLen ∧
      8 + (recordAt d p).nameLen ≤ (recordAt d p).recLen ∧
      Chain d stop (p + (recordAt d p).recLen) r := by
  rw [append_iff]
  constructor
  · rintro ⟨middle, first, rfl, rest⟩
    exact ⟨first, rest⟩
  · rintro ⟨first, rest⟩
    exact ⟨p, first, rfl, rest⟩

theorem positionsFrom_eq (chain : Chain d stop pos ps) {fuel : Nat} (enough : ps.length ≤ fuel) :
    positionsFrom d stop fuel pos = ps := by
  induction ps generalizing pos fuel with
  | nil =>
    have atEnd : pos = stop := chain
    cases fuel with
    | zero => rfl
    | succ fuel => exact if_neg (by omega)
  | cons p rest ih =>
    obtain ⟨rfl, -, long, tail⟩ := chain
    have bound := tail.le
    cases fuel with
    | zero => simp at enough
    | succ fuel =>
      unfold positionsFrom
      rw [if_pos (by omega), ih tail (by simpa using enough)]

theorem positions_eq (chain : Chain d stop 0 ps) : positions d stop = ps := by
  have := chain.length_le
  exact chain.positionsFrom_eq (by omega)

end Chain

theorem recordAt_congr {d d' : Bytes} {p : Nat}
    (same : Bytes.SameOn d d' p (8 + (recordAt d p).nameLen)) : recordAt d' p = recordAt d p := by
  have nameLen : d'.get (p + 6) = d.get (p + 6) := same _ (by omega) (by omega)
  have name : d'.view (p + 8) (d.get (p + 6)).toNat = d.view (p + 8) (d.get (p + 6)).toNat := by
    refine same.view (by omega) ?_
    simp only [recordAt]
    omega
  unfold recordAt
  rw [nameLen, same.u32 (by omega) (by omega), same.u16 (by omega) (by omega),
    same _ (by omega) (by omega), name]

theorem Chain.congr {d d' : Bytes} {stop pos : Nat} {ps : List Nat} (chain : Chain d stop pos ps)
    (same : Bytes.SameOn d d' pos (stop - pos)) :
    Chain d' stop pos ps ∧ ∀ p ∈ ps, recordAt d' p = recordAt d p := by
  induction ps generalizing pos with
  | nil => exact ⟨chain, fun p mem => absurd mem List.not_mem_nil⟩
  | cons p rest ih =>
    obtain ⟨rfl, aligned, long, tail⟩ := chain
    have bound := tail.le
    have here : recordAt d' p = recordAt d p := recordAt_congr (same.mono (le_rfl) (by omega))
    obtain ⟨tail', records⟩ := ih tail (same.mono (by omega) (by omega))
    refine ⟨?_, fun q mem => ?_⟩
    · unfold Chain
      rw [here]
      exact ⟨rfl, aligned, long, tail'⟩
    · rcases List.mem_cons.mp mem with rfl | later
      · exact here
      · exact records q later

/-- Split the record at `p`: it keeps `keep` bytes and a new record gets the rest. -/
def insertAt (d : Bytes) (p keep ino : Nat) (name : List UInt8) (fileType : UInt8) : Bytes :=
  ((((((d.putU16 (p + 4) keep).putU32 (p + keep) ino).putU16 (p + keep + 4)
    ((recordAt d p).recLen - keep)).put (p + keep + 6) 1 fun _ => UInt8.ofNat name.length).put
    (p + keep + 7) 1 fun _ => fileType).put (p + keep + 8) name.length fun k => name.getD k 0)

/-- Give the room of the record at `q` to the record at `p` before it. -/
def removeAt (d : Bytes) (p q : Nat) : Bytes :=
  (d.putU16 (p + 4) ((recordAt d p).recLen + (recordAt d q).recLen)).put q (recordAt d q).recLen
    fun _ => 0

theorem direntSpan_dvd (n : Nat) : 4 ∣ direntSpan n := Nat.dvd_mul_left _ _

theorem le_direntSpan (n : Nat) : 8 + n ≤ direntSpan n := by
  simp only [direntSpan, direntHeaderLen]
  omega

theorem direntSpan_le {n recLen : Nat} (aligned : 4 ∣ recLen) (long : 8 + n ≤ recLen) :
    direntSpan n ≤ recLen := by
  simp only [direntSpan, direntHeaderLen]
  omega

theorem recordAt_recLen_lt (d : Bytes) (p : Nat) : (recordAt d p).recLen < 2 ^ 16 := d.u16_lt _

section Insert

variable {d : Bytes} {p ino : Nat} {name : List UInt8} {fileType : UInt8}

theorem get_insertAt {keep i : Nat}
    (outside : i < p + 4 ∨ p + 6 ≤ i ∧ i < p + keep ∨ p + keep + 8 + name.length ≤ i)
    (header : 8 ≤ keep) : (insertAt d p keep ino name fileType).get i = d.get i := by
  unfold insertAt Bytes.putU16 Bytes.putU32
  rw [Bytes.get_put_outside _ (by omega), Bytes.get_put_outside _ (by omega),
    Bytes.get_put_outside _ (by omega), Bytes.get_put_outside _ (by omega),
    Bytes.get_put_outside _ (by omega), Bytes.get_put_outside _ (by omega)]

theorem recordAt_insertAt_old {keep : Nat} (long : 8 + (recordAt d p).nameLen ≤ keep)
    (keepLt : keep < 2 ^ 16) :
    recordAt (insertAt d p keep ino name fileType) p = { recordAt d p with recLen := keep } := by
  have same : ∀ i, i < p + 4 ∨ p + 6 ≤ i ∧ i < p + keep →
      (insertAt d p keep ino name fileType).get i = d.get i :=
    fun i inside => get_insertAt (by omega) (by omega)
  have inode : Bytes.SameOn d (insertAt d p keep ino name fileType) p 4 :=
    fun i lower upper => same i (by omega)
  have nameLen : (insertAt d p keep ino name fileType).get (p + 6) = d.get (p + 6) :=
    same _ (by omega)
  have nameBytes : Bytes.SameOn d (insertAt d p keep ino name fileType) (p + 8)
      (recordAt d p).nameLen := fun i lower upper => same i (by omega)
  have recLen : (insertAt d p keep ino name fileType).u16 (p + 4) = keep := by
    unfold insertAt Bytes.putU16 Bytes.putU32
    rw [Bytes.u16_put_outside _ (by omega), Bytes.u16_put_outside _ (by omega),
      Bytes.u16_put_outside _ (by omega), Bytes.u16_put_outside _ (by omega),
      Bytes.u16_put_outside _ (by omega), Bytes.u16_put_leByte (le_rfl),
      Nat.mod_eq_of_lt keepLt]
  have name' := nameBytes.view (le_rfl) (le_rfl)
  unfold recordAt at name' ⊢
  dsimp only at name' ⊢
  rw [nameLen, recLen, inode.u32 (le_rfl) (le_rfl), same (p + 7) (by omega), name']

theorem recordAt_insertAt_new {keep : Nat} (header : 8 ≤ keep) (inoLt : ino < 2 ^ 32)
    (short : name.length ≤ 255) (room : keep ≤ (recordAt d p).recLen) :
    recordAt (insertAt d p keep ino name fileType) (p + keep) =
      ⟨ino, (recordAt d p).recLen - keep, name.length, fileType, name⟩ := by
  have recLenLt := recordAt_recLen_lt d p
  have nameLen : (insertAt d p keep ino name fileType).get (p + keep + 6) =
      UInt8.ofNat name.length := by
    unfold insertAt
    rw [Bytes.get_put_outside _ (by omega), Bytes.get_put_outside _ (by omega),
      Bytes.get_put_inside _ (by omega) (by omega)]
  have type : (insertAt d p keep ino name fileType).get (p + keep + 7) = fileType := by
    unfold insertAt
    rw [Bytes.get_put_outside _ (by omega), Bytes.get_put_inside _ (by omega) (by omega)]
  have recLen : (insertAt d p keep ino name fileType).u16 (p + keep + 4) =
      (recordAt d p).recLen - keep := by
    unfold insertAt
    rw [Bytes.u16_put_outside _ (by omega), Bytes.u16_put_outside _ (by omega),
      Bytes.u16_put_outside _ (by omega), Bytes.u16_putU16, Nat.mod_eq_of_lt (by omega)]
  have inode : (insertAt d p keep ino name fileType).u32 (p + keep) = ino := by
    unfold insertAt Bytes.putU16
    rw [Bytes.u32_put_outside _ (by omega), Bytes.u32_put_outside _ (by omega),
      Bytes.u32_put_outside _ (by omega), Bytes.u32_put_outside _ (by omega),
      Bytes.u32_putU32, Nat.mod_eq_of_lt inoLt]
  have length : (UInt8.ofNat name.length).toNat = name.length := by
    rw [UInt8.toNat_ofNat']
    omega
  have bytes : (insertAt d p keep ino name fileType).view (p + keep + 8) name.length = name := by
    unfold insertAt
    exact Bytes.view_put_list _ _ _
  unfold recordAt at recLen ⊢
  rw [nameLen, type, inode, length, bytes]
  dsimp only at recLen ⊢
  rw [recLen]

theorem Chain.insert {stop start : Nat} {l r : List Nat} (chain : Chain d stop start (l ++ p :: r))
    (inoLt : ino < 2 ^ 32) (short : name.length ≤ 255)
    (room : direntSpan name.length ≤ (recordAt d p).recLen - direntSpan (recordAt d p).nameLen) :
    let keep := direntSpan (recordAt d p).nameLen
    let d' := insertAt d p keep ino name fileType
    Chain d' stop start (l ++ p :: (p + keep) :: r) ∧
      recordAt d' p = { recordAt d p with recLen := keep } ∧
      recordAt d' (p + keep) = ⟨ino, (recordAt d p).recLen - keep, name.length, fileType, name⟩ ∧
      ∀ x, x ∈ l ∨ x ∈ r → recordAt d' x = recordAt d x := by
  intro keep d'
  obtain ⟨first, aligned, long, last⟩ := Chain.split_iff.mp chain
  have keepLe : keep ≤ (recordAt d p).recLen := direntSpan_le aligned long
  have keepGe : 8 + (recordAt d p).nameLen ≤ keep := le_direntSpan _
  have nameSpan := le_direntSpan name.length
  have recLenLt := recordAt_recLen_lt d p
  have old : recordAt d' p = { recordAt d p with recLen := keep } :=
    recordAt_insertAt_old keepGe (by omega)
  have new : recordAt d' (p + keep) =
      ⟨ino, (recordAt d p).recLen - keep, name.length, fileType, name⟩ :=
    recordAt_insertAt_new (by omega) inoLt short keepLe
  have keepAligned : 4 ∣ keep := direntSpan_dvd _
  have before : Bytes.SameOn d d' start (p - start) :=
    fun i lower upper => get_insertAt (by omega) (by omega)
  have after : Bytes.SameOn d d' (p + (recordAt d p).recLen)
      (stop - (p + (recordAt d p).recLen)) :=
    fun i lower upper => get_insertAt (by omega) (by omega)
  obtain ⟨first', recordsL⟩ := first.congr before
  obtain ⟨last', recordsR⟩ := last.congr after
  refine ⟨?_, old, new, ?_⟩
  · rw [Chain.split_iff]
    refine ⟨first', ?_⟩
    rw [old]
    refine ⟨keepAligned, keepGe, rfl, ?_⟩
    rw [new]
    refine ⟨?_, ?_, ?_⟩
    · exact (Nat.dvd_sub aligned keepAligned)
    · show 8 + name.length ≤ (recordAt d p).recLen - keep
      omega
    · show Chain d' stop (p + keep + ((recordAt d p).recLen - keep)) r
      rwa [show p + keep + ((recordAt d p).recLen - keep) = p + (recordAt d p).recLen by omega]
  · rintro x (inL | inR)
    · exact recordsL x inL
    · exact recordsR x inR

end Insert

section Remove

variable {d : Bytes} {p q : Nat}

theorem get_removeAt {i : Nat} (outside : i < p + 4 ∨ p + 6 ≤ i)
    (apart : i < q ∨ q + (recordAt d q).recLen ≤ i) : (removeAt d p q).get i = d.get i := by
  unfold removeAt Bytes.putU16
  rw [Bytes.get_put_outside _ apart, Bytes.get_put_outside _ (by omega)]

theorem Chain.remove {stop start : Nat} {l r : List Nat}
    (chain : Chain d stop start (l ++ p :: q :: r))
    (fits : (recordAt d p).recLen + (recordAt d q).recLen < 2 ^ 16) :
    let d' := removeAt d p q
    Chain d' stop start (l ++ p :: r) ∧
      recordAt d' p =
        { recordAt d p with recLen := (recordAt d p).recLen + (recordAt d q).recLen } ∧
      ∀ x, x ∈ l ∨ x ∈ r → recordAt d' x = recordAt d x := by
  intro d'
  obtain ⟨first, aligned, long, tail⟩ := Chain.split_iff.mp chain
  obtain ⟨place, aligned', long', last⟩ := tail
  have same : ∀ i, i < p + 4 ∨ p + 6 ≤ i ∧ i < q → d'.get i = d.get i :=
    fun i inside => get_removeAt (by omega) (by omega)
  have recLen : d'.u16 (p + 4) = (recordAt d p).recLen + (recordAt d q).recLen := by
    show (removeAt d p q).u16 (p + 4) = _
    unfold removeAt
    rw [Bytes.u16_put_outside _ (by omega), Bytes.u16_putU16, Nat.mod_eq_of_lt fits]
  have inode : Bytes.SameOn d d' p 4 := fun i lower upper => same i (by omega)
  have nameBytes : Bytes.SameOn d d' (p + 8) (recordAt d p).nameLen :=
    fun i lower upper => same i (by omega)
  have name' := nameBytes.view (le_rfl) (le_rfl)
  have merged : recordAt d' p =
      { recordAt d p with recLen := (recordAt d p).recLen + (recordAt d q).recLen } := by
    unfold recordAt at name' recLen ⊢
    dsimp only at name' recLen ⊢
    rw [same (p + 6) (by omega), recLen, inode.u32 (le_rfl) (le_rfl),
      same (p + 7) (by omega), name']
  have before : Bytes.SameOn d d' start (p - start) :=
    fun i lower upper => same i (by omega)
  have after : Bytes.SameOn d d' (q + (recordAt d q).recLen)
      (stop - (q + (recordAt d q).recLen)) :=
    fun i lower upper => get_removeAt (by omega) (by omega)
  obtain ⟨first', recordsL⟩ := first.congr before
  obtain ⟨last', recordsR⟩ := last.congr after
  refine ⟨?_, merged, ?_⟩
  · rw [Chain.split_iff, merged]
    refine ⟨first', Nat.dvd_add aligned aligned', ?_, ?_⟩
    · show 8 + (recordAt d p).nameLen ≤ (recordAt d p).recLen + (recordAt d q).recLen
      omega
    · show Chain d' stop (p + ((recordAt d p).recLen + (recordAt d q).recLen)) r
      rwa [show p + ((recordAt d p).recLen + (recordAt d q).recLen) = q + (recordAt d q).recLen by
        omega]
  · rintro x (inL | inR)
    · exact recordsL x inL
    · exact recordsR x inR

end Remove

end Zaytos.Fs
