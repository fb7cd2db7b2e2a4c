import Zaytos.Kernel.UserStrings

set_option autoImplicit false

/-! The copy of an array of strings, and what is copied of paths and arrays. -/
namespace Zaytos.Kernel.Paging

namespace UserSpace

variable {space : UserSpace} {p : Word} {k n : Nat}

def SlotReadable (space : UserSpace) (base : Word) (i : Nat) : Prop :=
  ∀ k < 8, space.Readable base (i * 8 + k)

def pointerAt (space : UserSpace) (base : Word) (i : Nat) : Word :=
  BitVec.ofNat 64 ((⟨8, fun k => space.byteAt base (i * 8 + k)⟩ : Bytes).u64 0)

def HasText (space : UserSpace) (p : Word) (text : List UInt8) : Prop :=
  space.HasLength p text.length ∧ text = (List.range text.length).map (space.byteAt p)

def HasArray (space : UserSpace) (base : Word) : Nat → List (List UInt8) → Prop
  | i, [] => space.SlotReadable base i ∧ space.pointerAt base i = 0
  | i, text :: rest => space.SlotReadable base i ∧ space.pointerAt base i ≠ 0 ∧
      space.HasText (space.pointerAt base i) text ∧ space.HasArray base (i + 1) rest

def endToEnd (texts : List (List UInt8)) : List UInt8 := texts.flatMap (· ++ [0])

section Arrays

variable {base : Word} {i m : Nat} {text : List UInt8} {texts : List (List UInt8)}

theorem HasLength.unique (one : space.HasLength p n) (other : space.HasLength p m) : n = m := by
  apply le_antisymm
  · apply Nat.le_of_not_lt
    intro less
    exact (one.plain m less).2 other.nul
  · apply Nat.le_of_not_lt
    intro less
    exact (other.plain n less).2 one.nul

theorem HasLength.le_of_plain (length : space.HasLength p n) (plain : space.Plain p m) : m ≤ n := by
  apply Nat.le_of_not_lt
  intro less
  exact (plain n less).2 length.nul

theorem HasLength.readable_of_plain (length : space.HasLength p n) (plain : space.Plain p m) :
    space.Readable p m := by
  have bound := length.le_of_plain plain
  by_cases same : m = n
  · exact same ▸ length.readable
  · exact (length.plain m (by omega)).1

theorem HasText.unique {other : List UInt8} (one : space.HasText p text)
    (two : space.HasText p other) : text = other := by
  rw [one.2, two.2, one.1.unique two.1]

theorem HasArray.slot (array : space.HasArray base i texts) : space.SlotReadable base i := by
  cases texts with
  | nil => exact array.1
  | cons text rest => exact array.1

theorem endToEnd_cons (text : List UInt8) (rest : List (List UInt8)) :
    endToEnd (text :: rest) = text ++ [0] ++ endToEnd rest := rfl

theorem length_endToEnd_cons (text : List UInt8) (rest : List (List UInt8)) :
    (endToEnd (text :: rest)).length = text.length + 1 + (endToEnd rest).length := by
  rw [endToEnd_cons]
  simp
  omega

theorem copyFromUser_slot (base : Word) (i : Nat) :
    ∃ word, space.copyFromUser ⟨pointerSize, fun _ => 0⟩ 0 pointerSize
        ⟨base + BitVec.ofNat 64 (i * 8), BitVec.ofNat 64 pointerSize⟩ = some (pointerSize, word) ∧
      BitVec.ofNat 64 (word.u64 0) = space.pointerAt base i := by
  refine ⟨_, copyFromUser_eq (Nat.zero_le _) (le_rfl) rfl, ?_⟩
  rw [pointerAt]
  congr 1
  apply Bytes.SameOn.u64 (n := 8) _ (le_rfl) (le_rfl)
  intro k _ less
  have written := @Bytes.get_put_inside ⟨pointerSize, fun _ => 0⟩ 0 8 k
    (fun j => space.byte (base + BitVec.ofNat 64 (i * 8) + BitVec.ofNat 64 j)) (Nat.zero_le _) less
  rw [address_add] at written
  exact written

/-- How the copy of an array ends: all strings are there, one behind the other, or there is no such
array within the two limits. -/
theorem copyArrayFrom_wp {dst : Bytes} {count used maxCount : Nat} (fuel : Nat) (nonnull : base ≠ 0)
    (slots : base.toNat + count * 8 ≤ 2 ^ 64) (within : count ≤ maxCount)
    (enough : maxCount < count + fuel) (inside : used ≤ dst.len) :
    (space.copyArrayFrom base maxCount fuel count used).Wp dst
      (fun copied dst' => ∃ texts, space.HasArray base count texts ∧
        copied = (count + texts.length, used + (endToEnd texts).length) ∧
        count + texts.length ≤ maxCount ∧ used + (endToEnd texts).length ≤ dst.len ∧
        dst'.len = dst.len ∧ dst'.view used (endToEnd texts).length = endToEnd texts ∧
        Bytes.SameOn dst dst' 0 used)
      (fun _ _ => ∀ texts, space.HasArray base count texts → count + texts.length ≤ maxCount →
        ¬ used + (endToEnd texts).length ≤ dst.len) := by
  induction fuel generalizing count used dst with
  | zero => omega
  | succ fuel ih =>
    have positive : base.toNat ≠ 0 := fun zero => nonnull (BitVec.eq_of_toNat_eq zero)
    have skipped : mul64 count pointerSize = some (count * 8) :=
      mul64_of_lt (show count * 8 < 2 ^ 64 by omega)
    rw [copyArrayFrom, Exec.wp_bind, Exec.wp_lift]
    refine ⟨_, skipped, ?_⟩
    cases sum : add64 base.toNat (count * 8) with
    | none =>
      intro texts array _ _
      have noWrap : base.toNat + count * 8 < 2 ^ 64 := (array.slot 0 (by omega)).noWrap
      rw [add64_of_lt noWrap] at sum
      cases sum
    | some slot =>
      have noWrap := (add64_eq_some.mp sum).1
      have place : slot = base.toNat + count * 8 := (add64_eq_some.mp sum).2
      rw [place]
      dsimp only
      rw [Exec.wp_bind, Exec.wp_lift]
      apply Exists.elim (@validateUserRange_spec space base (count * 8) pointerSize noWrap
        (by decide) (by decide))
      intro checked answer
      refine ⟨checked, answer.1, ?_⟩
      cases answer.2.1 with
      | inl refused =>
        rw [refused] at answer ⊢
        intro texts array _ _
        have := answer.2.2.mpr array.slot
        cases this
      | inr accepted =>
        have readable : space.SlotReadable base count :=
          answer.2.2.mp (by rw [accepted]; rfl)
        rw [accepted]
        dsimp only
        apply Exists.elim (@copyFromUser_slot space base count)
        intro word reads
        rw [Exec.wp_bind, Exec.wp_lift]
        refine ⟨_, reads.1, ?_⟩
        rw [Exec.wp_bind, Exec.wp_rejectIf]
        apply And.intro fun short => absurd rfl short
        intro _
        dsimp only
        rw [reads.2]
        by_cases null : space.pointerAt base count = 0
        · rw [if_pos null, Exec.wp_pure]
          exact ⟨[], ⟨readable, null⟩, rfl, within, inside, rfl, rfl, Bytes.SameOn.refl _ _ _⟩
        · rw [if_neg null, Exec.wp_bind, Exec.wp_rejectIf]
          constructor
          · intro full texts array bound _
            cases texts with
            | nil => exact null array.2
            | cons text rest =>
              rw [List.length_cons] at bound
              omega
          · intro less
            rw [Exec.wp_bind]
            have string := @copyUserString_wp space (space.pointerAt base count) dst used inside
            apply string.mono
            · intro written dst1 _ copied
              apply Exists.elim copied
              intro n string
              have size : written = n + 1 := string.1
              have last := (readable 7 (by omega)).before
              have text : space.HasText (space.pointerAt base count)
                  ((List.range n).map (space.byteAt (space.pointerAt base count))) := by
                constructor
                · rw [List.length_map, List.length_range]
                  exact string.2.2.1
                · rw [List.length_map, List.length_range]
              have more := @ih dst1 (count + 1) (used + written) (by omega) (by omega) (by omega)
                (by rw [string.2.2.2.1]; exact string.2.1)
              apply more.mono
              · intro copied dst2 _ rest
                apply Exists.elim rest
                intro texts rest
                refine ⟨_ :: texts, ⟨readable, null, text, rest.1⟩, ?_⟩
                have sizes := rest.2.1
                have len : dst2.len = dst.len := rest.2.2.2.2.1.trans string.2.2.2.1
                have bounds := rest.2.2.2.1
                have stays := rest.2.2.2.2.2.2
                rw [string.2.2.2.1] at bounds
                rw [length_endToEnd_cons, List.length_cons, List.length_map, List.length_range]
                refine ⟨?_, by omega, by omega, len, ?_, ?_⟩
                · rw [sizes, Prod.mk.injEq]
                  constructor <;> omega
                · -- The string that was copied first is still there.
                  have text : dst2.view used (n + 1) =
                      (List.range n).map (space.byteAt (space.pointerAt base count)) ++ [0] := by
                    have kept := stays.mono (Nat.zero_le used) (by omega : used + (n + 1) ≤ _)
                    rw [kept.view (le_rfl) (le_rfl), Bytes.view, List.range_succ,
                      List.map_append, List.map_singleton, string.2.2.2.2.1 n (le_refl n),
                      string.2.2.1.nul]
                    congr 1
                    apply List.map_congr_left
                    intro k mem
                    exact string.2.2.2.2.1 k (le_of_lt (List.mem_range.mp mem))
                  have behind := rest.2.2.2.2.2.1
                  rw [Bytes.view_add, text, endToEnd_cons, ← size, behind]
                · exact string.2.2.2.2.2.trans (stays.mono (le_rfl) (by omega))
              · intro e dst2 _ refused texts array bound fits
                cases texts with
                | nil => exact null array.2
                | cons other rest =>
                  have same := array.2.2.1.unique text
                  rw [length_endToEnd_cons, same, List.length_map, List.length_range] at fits
                  rw [List.length_cons] at bound
                  apply refused rest array.2.2.2 (by omega)
                  rw [string.2.2.2.1]
                  omega
            · intro e dst' _ refused texts array bound fits
              cases texts with
              | nil => exact null array.2
              | cons text rest =>
                rw [length_endToEnd_cons] at fits
                cases refused with
                | inl long =>
                  have := array.2.2.1.1.le_of_plain long.2
                  omega
                | inr fault =>
                  apply Exists.elim fault.2
                  intro n stops
                  exact stops.2.2 (array.2.2.1.1.readable_of_plain stops.2.1)

end Arrays

theorem copyUserStringArray_wp (base : Word) (maxCount : Nat) (dst : Bytes) :
    (space.copyUserStringArray base maxCount).Wp dst
      (fun copied dst' => ∃ texts, space.HasArray base 0 texts ∧
        copied = (texts.length, (endToEnd texts).length) ∧ texts.length ≤ maxCount ∧
        (endToEnd texts).length ≤ dst.len ∧
        dst'.view 0 (endToEnd texts).length = endToEnd texts)
      (fun _ _ => ∀ texts, space.HasArray base 0 texts → texts.length ≤ maxCount →
        ¬ (endToEnd texts).length ≤ dst.len) := by
  rw [copyUserStringArray, Exec.wp_bind, Exec.wp_rejectIf]
  constructor
  · intro null texts array _ _
    have inside := (array.slot 0 (by omega)).allowed.inside.1
    have start := space.window_start
    rw [null, BitVec.le_def] at inside
    exact absurd inside (not_le.mpr start)
  · intro nonnull
    have bound := base.isLt
    apply (@copyArrayFrom_wp space base dst 0 0 maxCount (maxCount + 1) nonnull (by omega)
      (Nat.zero_le _) (by omega) (Nat.zero_le _)).mono
    · intro copied dst' _ found
      apply Exists.elim found
      intro texts holds
      simp only [zero_add] at holds
      exact ⟨texts, holds.1, holds.2.1, holds.2.2.1, holds.2.2.2.1, holds.2.2.2.2.2.1⟩
    · intro e dst' _ refused texts array few short
      exact refused texts array (by omega) (by omega)

theorem copyUserPath_wp (path : Word) (dst : Nat → UInt8) :
    (space.copyUserPath path).Wp ⟨pathMax, dst⟩
      (fun n dst' => n < pathMax ∧ space.HasLength path n ∧
        ∀ k < n, dst'.get k = space.byteAt path k)
      (fun e _ => e = .enametoolong ∧ space.Plain path pathMax ∨
        e = .efault ∧ ∃ n < pathMax, space.Plain path n ∧ ¬ space.Readable path n) := by
  apply (@copyText_wp space path ⟨pathMax, dst⟩ 0 pathMax 0 .enametoolong (pathMax + 1)
    (fun k less => absurd less (Nat.not_lt_zero k)) (fun k less => absurd less (Nat.not_lt_zero k))
    (le_of_eq (zero_add _)) (Nat.zero_le _) (by omega)).mono
  · intro n dst' _ copied
    refine ⟨copied.1, copied.2.1, fun k less => ?_⟩
    have byte := copied.2.2.2.1 k (le_of_lt less)
    rw [zero_add] at byte
    exact byte
  · intro _ _ _ refused
    exact refused

theorem HasArray.unique {i : Nat} {base : Word} {one other : List (List UInt8)}
    (first : space.HasArray base i one) (second : space.HasArray base i other) : one = other := by
  induction one generalizing i other with
  | nil =>
    cases other with
    | nil => rfl
    | cons text rest => exact absurd first.2 second.2.1
  | cons text rest ih =>
    cases other with
    | nil => exact absurd second.2 first.2.1
    | cons text' rest' =>
      rw [first.2.2.1.unique second.2.2.1, ih first.2.2.2 second.2.2.2]

theorem copyUserPath_ends (path : Word) (dst : Nat → UInt8) :
    (∃ n dst', space.copyUserPath path ⟨pathMax, dst⟩ = .ok n dst' ∧
      n < pathMax ∧ space.HasLength path n ∧ ∀ k < n, dst'.get k = space.byteAt path k) ∨
    (∃ dst', space.copyUserPath path ⟨pathMax, dst⟩ = .err .enametoolong dst' ∧
      space.Plain path pathMax) ∨
    ∃ dst', space.copyUserPath path ⟨pathMax, dst⟩ = .err .efault dst' ∧
      ∃ n < pathMax, space.Plain path n ∧ ¬ space.Readable path n := by
  have ends := @copyUserPath_wp space path dst
  cases run : space.copyUserPath path ⟨pathMax, dst⟩ with
  | fault =>
    rw [Exec.Wp, run] at ends
    exact ends.elim
  | ok n dst' =>
    rw [Exec.Wp, run] at ends
    exact Or.inl ⟨n, dst', rfl, ends⟩
  | err e dst' =>
    rw [Exec.Wp, run] at ends
    cases ends with
    | inl long => exact Or.inr (Or.inl ⟨dst', by rw [long.1], long.2⟩)
    | inr fault => exact Or.inr (Or.inr ⟨dst', by rw [fault.1], fault.2⟩)

theorem not_length_of_plain (plain : space.Plain p k) (length : n < k) : ¬ space.HasLength p n :=
  fun ends => (plain n length).2 ends.nul

theorem copyUserStringArray_ends (base : Word) (maxCount : Nat) (dst : Bytes) :
    (∃ texts dst', space.copyUserStringArray base maxCount dst =
        .ok (texts.length, (endToEnd texts).length) dst' ∧ space.HasArray base 0 texts ∧
      texts.length ≤ maxCount ∧ (endToEnd texts).length ≤ dst.len ∧
      dst'.view 0 (endToEnd texts).length = endToEnd texts) ∨
    ∃ e dst', space.copyUserStringArray base maxCount dst = .err e dst' ∧
      ∀ texts, space.HasArray base 0 texts → texts.length ≤ maxCount →
        ¬ (endToEnd texts).length ≤ dst.len := by
  have ends := @copyUserStringArray_wp space base maxCount dst
  cases run : space.copyUserStringArray base maxCount dst with
  | fault =>
    rw [Exec.Wp, run] at ends
    exact ends.elim
  | ok copied dst' =>
    rw [Exec.Wp, run] at ends
    apply Exists.elim ends
    intro texts holds
    exact Or.inl ⟨texts, dst', by rw [holds.2.1], holds.1, holds.2.2⟩
  | err e dst' =>
    rw [Exec.Wp, run] at ends
    exact Or.inr ⟨e, dst', rfl, ends⟩

end UserSpace

open UserSpace

/-- A path is copied exactly when it can be read up to a NUL that comes soon enough; it is too long
exactly when as many bytes as the buffer has can be read and none of them is NUL; all else is a
fault. An array of strings is copied exactly when it can be read up to its NULL, and each string up
to its NUL, within the limits on their number and on their length. -/
theorem copies_exact (space : UserSpace) :
    (∀ (path : Word) (dst : Nat → UInt8),
      (∀ n, (∃ dst', space.copyUserPath path ⟨pathMax, dst⟩ = .ok n dst') ↔
        n < pathMax ∧ space.HasLength path n) ∧
      (∀ n dst', space.copyUserPath path ⟨pathMax, dst⟩ = .ok n dst' →
        ∀ k < n, dst'.get k = space.byteAt path k) ∧
      ((∃ dst', space.copyUserPath path ⟨pathMax, dst⟩ = .err .enametoolong dst') ↔
        space.Plain path pathMax) ∧
      ((∃ dst', space.copyUserPath path ⟨pathMax, dst⟩ = .err .efault dst') ↔
        ¬ (∃ n < pathMax, space.HasLength path n) ∧ ¬ space.Plain path pathMax)) ∧
    ∀ (base : Word) (maxCount : Nat) (dst : Bytes),
      space.copyUserStringArray base maxCount dst ≠ .fault ∧
      (∀ count used,
        (∃ dst', space.copyUserStringArray base maxCount dst = .ok (count, used) dst') ↔
        ∃ texts, space.HasArray base 0 texts ∧ count = texts.length ∧ count ≤ maxCount ∧
          used = (endToEnd texts).length ∧ used ≤ dst.len) ∧
      ∀ count used dst', space.copyUserStringArray base maxCount dst = .ok (count, used) dst' →
        ∃ texts, space.HasArray base 0 texts ∧ count = texts.length ∧
          dst'.view 0 used = endToEnd texts := by
  constructor
  · intro path dst
    cases space.copyUserPath_ends path dst with
    | inl copied =>
      apply Exists.elim copied
      intro length copied
      apply Exists.elim copied
      intro dst' copied
      have run := copied.1
      have whole := copied.2.2.1
      rw [run]
      refine ⟨fun n => ⟨?_, ?_⟩, ?_, ?_, ?_⟩
      · intro found
        apply Exists.elim found
        intro left same
        cases same
        exact ⟨copied.2.1, whole⟩
      · intro ends
        exact ⟨dst', by rw [whole.unique ends.2]⟩
      · intro n left same
        cases same
        exact copied.2.2.2
      · exact iff_of_false nofun fun plain => not_length_of_plain plain copied.2.1 whole
      · exact iff_of_false nofun fun none => none.1 ⟨length, copied.2.1, whole⟩
    | inr refused =>
      cases refused with
      | inl long =>
        apply Exists.elim long
        intro dst' long
        have plain := long.2
        rw [long.1]
        refine ⟨fun n => iff_of_false nofun fun ends => ?_, nofun, ?_, ?_⟩
        · exact not_length_of_plain plain ends.1 ends.2
        · exact iff_of_true ⟨dst', rfl⟩ plain
        · exact iff_of_false nofun fun none => none.2 plain
      | inr fault =>
        apply Exists.elim fault
        intro dst' fault
        apply Exists.elim fault.2
        intro stop stops
        have short : ∀ n, ¬ (n < pathMax ∧ space.HasLength path n) := by
          intro n ends
          exact stops.2.2 (ends.2.readable_of_plain stops.2.1)
        have cut : ¬ space.Plain path pathMax := fun plain => stops.2.2 (plain stop stops.1).1
        rw [fault.1]
        refine ⟨fun n => iff_of_false nofun (short n), nofun, iff_of_false nofun cut, ?_⟩
        exact iff_of_true ⟨dst', rfl⟩ ⟨fun found => found.elim fun n ends => short n ends, cut⟩
  · intro base maxCount dst
    cases space.copyUserStringArray_ends base maxCount dst with
    | inl copied =>
      apply Exists.elim copied
      intro texts copied
      apply Exists.elim copied
      intro dst' copied
      rw [copied.1]
      refine ⟨nofun, fun count used => ⟨?_, ?_⟩, ?_⟩
      · intro found
        apply Exists.elim found
        intro left same
        cases same
        exact ⟨texts, copied.2.1, rfl, copied.2.2.1, rfl, copied.2.2.2.1⟩
      · intro found
        apply Exists.elim found
        intro others holds
        rw [holds.2.1, holds.2.2.2.1, holds.1.unique copied.2.1]
        exact ⟨dst', rfl⟩
      · intro count used left same
        cases same
        exact ⟨texts, copied.2.1, rfl, copied.2.2.2.2⟩
    | inr refused =>
      apply Exists.elim refused
      intro e refused
      apply Exists.elim refused
      intro dst' refused
      rw [refused.1]
      refine ⟨nofun, fun count used => iff_of_false nofun fun found => ?_, nofun⟩
      apply Exists.elim found
      intro texts holds
      exact refused.2 texts holds.1 (holds.2.1 ▸ holds.2.2.1) (holds.2.2.2.1 ▸ holds.2.2.2.2)

end Zaytos.Kernel.Paging
