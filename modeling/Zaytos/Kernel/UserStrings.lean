import Zaytos.Kernel.UserPointer
import Zaytos.Lib.Bytes
import Zaytos.Lib.Exec

set_option autoImplicit false

/-! The copies of strings that a program hands over by their addresses. How long they are is not
known in advance. -/
namespace Zaytos.Kernel.Paging

/-- What a program can reach: the tables of its space, the entry at the top that its window comes
from, and what is read at an address. -/
structure UserSpace where
  tables : Tables
  pml4 : Word
  subtree : Nat
  entry : subtree < 512
  byte : Word → UInt8

inductive CopyError where
  | efault
  | enametoolong
  | e2big
  deriving DecidableEq, Repr

abbrev pathMax : Nat := 256

abbrev pointerSize : Nat := 8

namespace UserSpace

/-- `user_window`. -/
def window (space : UserSpace) : Word × Word := windowForSubtree space.subtree

def validateUserRange (space : UserSpace) (buf len : Word) : Option (Option UserSlice) :=
  validatedRange space.tables space.pml4 .read space.window buf len (len.toNat / 4096 + 3)

/-- `copy_from_user`, to `dst[lo..hi]`. How much was read comes first. -/
def copyFromUser (space : UserSpace) (dst : Bytes) (lo hi : Nat) (slice : UserSlice) :
    Option (Nat × Bytes) :=
  if lo ≤ hi ∧ hi ≤ dst.len then
    let count := min slice.len.toNat (hi - lo)
    some (count, dst.put lo count fun i => space.byte (slice.buf + BitVec.ofNat 64 i))
  else none

/-- `copy_from_user`, to a part of the buffer that is filled. -/
def fill (space : UserSpace) (lo hi : Nat) (slice : UserSlice) : Exec Bytes CopyError Nat :=
  fun dst =>
    match space.copyFromUser dst lo hi slice with
    | none => .fault
    | some (count, dst) => .ok count dst

def findNul (at' read : Nat) : Exec Bytes CopyError (Option Nat) := fun dst =>
  .ok ((List.range read).find? fun i => dst.get (at' + i) == 0) dst

/-- The loop of `copy_user_path` and of `copy_user_string`, which differ in the refusal of a string
that is too long. It reads up to the end of the page it is in. -/
def copyText (space : UserSpace) (tooLong : CopyError) (start limit : Nat) (ptr : Word) :
    Nat → Nat → Exec Bytes CopyError Nat
  | 0, _ => fun _ => .fault
  | fuel + 1, copied =>
    if copied < limit then
      match add64 ptr.toNat copied with
      | none => Exec.fail .efault
      | some addr => do
        let toPageEnd := 0x1000 - addr % 0x1000
        let chunk := min toPageEnd (limit - copied)
        let checked ← liftM
          (space.validateUserRange (BitVec.ofNat 64 addr) (BitVec.ofNat 64 chunk))
        match checked with
        | none => Exec.fail .efault
        | some slice =>
          let read ← space.fill (start + copied) (start + copied + chunk) slice
          Exec.rejectIf (read = 0) .efault
          let nul ← findNul (start + copied) read
          match nul with
          | some i => pure (copied + i)
          | none => space.copyText tooLong start limit ptr fuel (copied + read)
    else Exec.fail tooLong

/-- `copy_user_path`, to a buffer of `pathMax` bytes. -/
def copyUserPath (space : UserSpace) (path : Word) : Exec Bytes CopyError Nat :=
  space.copyText .enametoolong 0 pathMax path (pathMax + 1) 0

/-- `copy_user_string`, to `dst[start..]`. -/
def copyUserString (space : UserSpace) (start : Nat) (ptr : Word) : Exec Bytes CopyError Nat :=
  fun dst => (do
    Exec.faultIf (dst.len < start)
    let length ← space.copyText .e2big start (dst.len - start) ptr (dst.len - start + 1) 0
    return length + 1) dst

/-- The loop of `copy_user_string_array`. -/
def copyArrayFrom (space : UserSpace) (base : Word) (maxCount : Nat) :
    Nat → Nat → Nat → Exec Bytes CopyError (Nat × Nat)
  | 0, _, _ => fun _ => .fault
  | fuel + 1, count, used => do
    let skipped ← liftM (mul64 count pointerSize)
    match add64 base.toNat skipped with
    | none => Exec.fail .efault
    | some slot =>
      let checked ← liftM
        (space.validateUserRange (BitVec.ofNat 64 slot) (BitVec.ofNat 64 pointerSize))
      match checked with
      | none => Exec.fail .efault
      | some slice =>
        let word ← liftM (space.copyFromUser ⟨pointerSize, fun _ => 0⟩ 0 pointerSize slice)
        Exec.rejectIf (word.1 ≠ pointerSize) .efault
        let pointer := BitVec.ofNat 64 (word.2.u64 0)
        if pointer = 0 then return (count, used)
        else
          Exec.rejectIf (count = maxCount) .e2big
          let written ← space.copyUserString used pointer
          space.copyArrayFrom base maxCount fuel (count + 1) (used + written)

def copyUserStringArray (space : UserSpace) (base : Word) (maxCount : Nat) :
    Exec Bytes CopyError (Nat × Nat) := do
  Exec.rejectIf (base = 0) .efault
  space.copyArrayFrom base maxCount (maxCount + 1) 0 0

/-! What the program hands over. -/

structure Readable (space : UserSpace) (p : Word) (k : Nat) : Prop where
  noWrap : p.toNat + k < 2 ^ 64
  allowed : ByteAllowed space.tables space.pml4 .read space.window (p + BitVec.ofNat 64 k)

def byteAt (space : UserSpace) (p : Word) (k : Nat) : UInt8 := space.byte (p + BitVec.ofNat 64 k)

def Plain (space : UserSpace) (p : Word) (n : Nat) : Prop :=
  ∀ k < n, space.Readable p k ∧ space.byteAt p k ≠ 0

structure HasLength (space : UserSpace) (p : Word) (n : Nat) : Prop where
  plain : space.Plain p n
  readable : space.Readable p n
  nul : space.byteAt p n = 0

variable {space : UserSpace} {p : Word} {k n : Nat}

theorem toNat_address (noWrap : p.toNat + k < 2 ^ 64) :
    (p + BitVec.ofNat 64 k).toNat = p.toNat + k := by
  rw [BitVec.toNat_add, BitVec.toNat_ofNat, Nat.mod_eq_of_lt (show k < 2 ^ 64 by omega),
    Nat.mod_eq_of_lt noWrap]

theorem ofNat_address (p : Word) (k : Nat) :
    BitVec.ofNat 64 (p.toNat + k) = p + BitVec.ofNat 64 k := by
  rw [BitVec.ofNat_add, BitVec.ofNat_toNat, BitVec.setWidth_eq]

theorem address_add (p : Word) (i j : Nat) :
    p + BitVec.ofNat 64 i + BitVec.ofNat 64 j = p + BitVec.ofNat 64 (i + j) := by
  rw [BitVec.ofNat_add, BitVec.add_assoc]

theorem window_end (space : UserSpace) : space.window.2.toNat % 4096 = 0 := by
  have ends := congrArg BitVec.toNat (windowForSubtree_aligned space.entry).2
  rw [toNat_pageOf] at ends
  show (windowForSubtree space.subtree).2.toNat % 4096 = 0
  omega

theorem window_start (space : UserSpace) : 0 < space.window.1.toNat := by
  show 0 < (windowForSubtree space.subtree).1.toNat
  rw [windowForSubtree]
  split
  · show 0 < (userMinAddr : Word).toNat
    decide
  · rename_i high
    rw [BitVec.lt_def] at high
    have floor : (userMinAddr : Word).toNat = 0x400000 := rfl
    show 0 < (BitVec.ofNat 64 space.subtree * subtreeSpan).toNat
    omega

theorem Readable.before (readable : space.Readable p k) : p.toNat + k + 1 < 2 ^ 64 := by
  have inside := readable.allowed.inside.2
  have ends := space.window_end
  have bound := space.window.2.isLt
  rw [BitVec.lt_def, toNat_address readable.noWrap] at inside
  omega

theorem Readable.page {j : Nat} (readable : space.Readable p k)
    (same : (p.toNat + k) % 4096 + j < 4096) : space.Readable p (k + j) := by
  have inside := readable.allowed.inside
  have ends := space.window_end
  have before := readable.before
  have bound := space.window.2.isLt
  have noWrap := readable.noWrap
  rw [BitVec.lt_def, BitVec.le_def, toNat_address noWrap] at inside
  have noWrap' : p.toNat + (k + j) < 2 ^ 64 := by omega
  have page : pageOf (p + BitVec.ofNat 64 (k + j)) = pageOf (p + BitVec.ofNat 64 k) := by
    apply BitVec.eq_of_toNat_eq
    rw [toNat_pageOf, toNat_pageOf, toNat_address noWrap, toNat_address noWrap']
    omega
  constructor
  · exact noWrap'
  · constructor
    · rw [BitVec.lt_def, BitVec.le_def, toNat_address noWrap']
      omega
    · rw [← isCanonical_pageOf, page, isCanonical_pageOf]
      exact readable.allowed.canonical
    · rw [page]
      exact readable.allowed.page

theorem validateUserRange_spec (noWrap : p.toNat + k < 2 ^ 64) (positive : 0 < n)
    (small : n < 2 ^ 64) :
    ∃ checked, space.validateUserRange (BitVec.ofNat 64 (p.toNat + k)) (BitVec.ofNat 64 n) =
        some checked ∧
      (checked = none ∨ checked = some ⟨p + BitVec.ofNat 64 k, BitVec.ofNat 64 n⟩) ∧
      (checked.isSome = true ↔ ∀ i < n, space.Readable p (k + i)) := by
  have length : (BitVec.ofNat 64 n).toNat = n := by
    rw [BitVec.toNat_ofNat, Nat.mod_eq_of_lt small]
  have start := toNat_address noWrap
  rw [ofNat_address]
  apply Exists.elim (validatedRange_accepts space.tables space.pml4 .read space.window
    (windowForSubtree_aligned space.entry) (p + BitVec.ofNat 64 k) (BitVec.ofNat 64 n)
    (by rw [BitVec.lt_def, length]; exact positive) _ (le_rfl))
  intro checked holds
  refine ⟨checked, holds.1, holds.2.1, holds.2.2.trans ?_⟩
  rw [length, start]
  constructor
  · intro accepted i within
    have noWrap' : p.toNat + (k + i) < 2 ^ 64 := by omega
    apply Readable.mk noWrap'
    apply accepted.2
    · rw [BitVec.le_def, start, toNat_address noWrap']
      omega
    · rw [toNat_address noWrap']
      omega
  · intro readable
    have last := (readable (n - 1) (by omega)).before
    apply And.intro (by omega)
    intro address lower upper
    rw [BitVec.le_def, start] at lower
    have byte := (readable (address.toNat - (p.toNat + k)) (by omega)).allowed
    rw [← ofNat_address, show p.toNat + (k + (address.toNat - (p.toNat + k))) = address.toNat by
      omega, BitVec.ofNat_toNat, BitVec.setWidth_eq] at byte
    exact byte

/-! The loop over the pages of a string. -/

section Loops

variable {dst : Bytes} {lo hi start limit copied : Nat} {slice : UserSlice} {tooLong : CopyError}

theorem copyFromUser_eq (order : lo ≤ hi) (inside : hi ≤ dst.len)
    (length : slice.len.toNat = hi - lo) : space.copyFromUser dst lo hi slice =
      some (hi - lo, dst.put lo (hi - lo) fun i => space.byte (slice.buf + BitVec.ofNat 64 i)) := by
  rw [copyFromUser, if_pos ⟨order, inside⟩, length, Nat.min_self]

theorem wp_fill {count : Nat} {dst' : Bytes} {Q : Nat → Bytes → Prop}
    {E : CopyError → Bytes → Prop}
    (reads : space.copyFromUser dst lo hi slice = some (count, dst')) :
    (space.fill lo hi slice).Wp dst Q E ↔ Q count dst' := by
  simp only [fill, Exec.Wp, reads]

theorem wp_findNul {at' read : Nat} {Q : Option Nat → Bytes → Prop}
    {E : CopyError → Bytes → Prop} : (findNul at' read).Wp dst Q E ↔
      Q ((List.range read).find? fun i => dst.get (at' + i) == 0) dst := Iff.rfl

/-- How the copy of a string ends: it has the whole string and changed nothing below it, or the
limit or a byte that cannot be read came first. -/
theorem copyText_wp (fuel : Nat) (plain : space.Plain p copied)
    (got : ∀ k < copied, dst.get (start + k) = space.byteAt p k) (room : start + limit ≤ dst.len)
    (within : copied ≤ limit) (enough : limit < copied + fuel) :
    (space.copyText tooLong start limit p fuel copied).Wp dst
      (fun n dst' => n < limit ∧ space.HasLength p n ∧ dst'.len = dst.len ∧
        (∀ k ≤ n, dst'.get (start + k) = space.byteAt p k) ∧ Bytes.SameOn dst dst' 0 start)
      (fun e _ => e = tooLong ∧ space.Plain p limit ∨
        e = .efault ∧ ∃ n < limit, space.Plain p n ∧ ¬ space.Readable p n) := by
  induction fuel generalizing copied dst with
  | zero => omega
  | succ fuel ih =>
    rw [copyText]
    by_cases more : copied < limit
    · rw [if_pos more]
      cases sum : add64 p.toNat copied with
      | none =>
        right
        refine ⟨rfl, copied, more, plain, ?_⟩
        intro readable
        rw [add64_of_lt readable.noWrap] at sum
        cases sum
      | some addr =>
        have noWrap := (add64_eq_some.mp sum).1
        have place : addr = p.toNat + copied := (add64_eq_some.mp sum).2
        rw [place]
        dsimp only
        generalize size : min (0x1000 - (p.toNat + copied) % 0x1000) (limit - copied) = chunk
        have bounds : 0 < chunk ∧ chunk ≤ limit - copied ∧
            (p.toNat + copied) % 4096 + chunk ≤ 4096 := by omega
        rw [Exec.wp_bind, Exec.wp_lift]
        apply Exists.elim (@validateUserRange_spec space p copied chunk noWrap bounds.1 (by omega))
        intro checked answer
        apply Exists.intro checked
        apply And.intro answer.1
        cases answer.2.1 with
        | inl refused =>
          -- The rest of the page cannot be read, so its first byte cannot.
          rw [refused] at answer ⊢
          right
          refine ⟨rfl, copied, more, plain, fun readable => ?_⟩
          have := answer.2.2.mpr fun i less => readable.page (by omega)
          cases this
        | inr accepted =>
          have readable := answer.2.2.mp (by rw [accepted]; rfl)
          have length : (BitVec.ofNat 64 chunk).toNat = chunk := by
            rw [BitVec.toNat_ofNat, Nat.mod_eq_of_lt (by omega)]
          have reads := @copyFromUser_eq space dst (start + copied) (start + copied + chunk)
            ⟨p + BitVec.ofNat 64 copied, BitVec.ofNat 64 chunk⟩ (Nat.le_add_right _ _) (by omega)
            (by rw [Nat.add_sub_cancel_left]; exact length)
          rw [Nat.add_sub_cancel_left] at reads
          rw [accepted]
          dsimp only
          rw [Exec.wp_bind, wp_fill reads, Exec.wp_bind, Exec.wp_rejectIf]
          apply And.intro fun empty => absurd empty (by omega)
          intro _
          rw [Exec.wp_bind, wp_findNul]
          generalize filled : dst.put (start + copied) chunk (fun i =>
            space.byte (p + BitVec.ofNat 64 copied + BitVec.ofNat 64 i)) = dst1
          have len : dst1.len = dst.len := by rw [← filled]; rfl
          have below : Bytes.SameOn dst dst1 0 (start + copied) := by
            rw [← filled]
            exact Bytes.put_sameOn _ (Or.inl (by omega))
          have fresh : ∀ i < chunk, dst1.get (start + copied + i) = space.byteAt p (copied + i) := by
            intro i less
            rw [← filled, Bytes.get_put_inside _ (by omega) (by omega), address_add,
              Nat.add_sub_cancel_left]
            rfl
          have got1 : ∀ k < copied + chunk, dst1.get (start + k) = space.byteAt p k := by
            intro k less
            by_cases old : k < copied
            · rw [below (start + k) (by omega) (by omega)]
              exact got k old
            · have new := fresh (k - copied) (by omega)
              rw [show start + copied + (k - copied) = start + k by omega,
                show copied + (k - copied) = k by omega] at new
              exact new
          have plainTo : ∀ i ≤ chunk, (∀ j < i, dst1.get (start + copied + j) ≠ 0) →
              space.Plain p (copied + i) := by
            intro i bound nonzero k less
            by_cases old : k < copied
            · exact plain k old
            · have readable := readable (k - copied) (by omega)
              have nonzero := nonzero (k - copied) (by omega)
              rw [fresh (k - copied) (by omega)] at nonzero
              rw [show copied + (k - copied) = k by omega] at readable nonzero
              exact ⟨readable, nonzero⟩
          cases found : (List.range chunk).find? fun i => dst1.get (start + copied + i) == 0 with
          | none =>
            have nonzero : ∀ j < chunk, dst1.get (start + copied + j) ≠ 0 := by
              intro j less zero
              have := List.find?_eq_none.mp found j (List.mem_range.mpr less)
              exact this (beq_iff_eq.mpr zero)
            apply (ih (plainTo chunk (le_rfl) nonzero) got1 (len.symm ▸ room) (by omega)
              (by omega)).mono
            · intro n dst' _ copied'
              refine ⟨copied'.1, copied'.2.1, copied'.2.2.1.trans len, copied'.2.2.2.1, ?_⟩
              exact (below.mono (le_rfl) (by omega)).trans copied'.2.2.2.2
            · intro _ _ _ refused
              exact refused
          | some i =>
            have first := List.find?_range_eq_some.mp found
            have less := List.mem_range.mp first.2.1
            have nul : dst1.get (start + copied + i) = 0 := beq_iff_eq.mp first.1
            have nonzero : ∀ j < i, dst1.get (start + copied + j) ≠ 0 := by
              intro j before
              simpa using first.2.2 j before
            rw [fresh i less] at nul
            refine ⟨by omega, ⟨plainTo i (by omega) nonzero, readable i less, nul⟩, len, ?_, ?_⟩
            · intro k bound
              exact got1 k (by omega)
            · exact below.mono (le_rfl) (by omega)
    · rw [if_neg more]
      left
      rw [show limit = copied by omega]
      exact ⟨rfl, plain⟩

theorem copyUserString_wp (inside : start ≤ dst.len) :
    (space.copyUserString start p).Wp dst
      (fun written dst' => ∃ n, written = n + 1 ∧ start + written ≤ dst.len ∧ space.HasLength p n ∧
        dst'.len = dst.len ∧ (∀ k ≤ n, dst'.get (start + k) = space.byteAt p k) ∧
        Bytes.SameOn dst dst' 0 start)
      (fun e _ => e = .e2big ∧ space.Plain p (dst.len - start) ∨
        e = .efault ∧ ∃ n < dst.len - start, space.Plain p n ∧ ¬ space.Readable p n) := by
  show Exec.Wp (Exec.faultIf (dst.len < start) >>= _) dst _ _
  rw [Exec.wp_bind, Exec.wp_faultIf]
  apply And.intro (not_lt.mpr inside)
  rw [Exec.wp_bind]
  apply (copyText_wp _ (fun k less => absurd less (Nat.not_lt_zero k))
    (fun k less => absurd less (Nat.not_lt_zero k)) (by omega) (Nat.zero_le _) (by omega)).mono
  · intro n dst' _ copied
    have bound := copied.1
    exact ⟨n, rfl, by omega, copied.2⟩
  · intro _ _ _ refused
    exact refused

end Loops

end UserSpace

end Zaytos.Kernel.Paging
