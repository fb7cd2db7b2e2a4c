import Zaytos.Kernel.PageWalk

set_option autoImplicit false

/-! The check of a range of addresses that a program hands over. -/
namespace Zaytos.Kernel.Paging

structure UserSlice where
  buf : Word
  len : Word
  deriving DecidableEq, Repr

abbrev userMinAddr : Word := 0x400000

abbrev subtreeSpan : Word := 1 <<< 39

def windowForSubtree (index : Nat) : Word × Word :=
  let start := BitVec.ofNat 64 index * subtreeSpan
  if start < userMinAddr then (userMinAddr, start + subtreeSpan) else (start, start + subtreeSpan)

section

variable (tables : Tables) (pml4 : Word) (access : UserAccess)

/-- The loop of `validated_range`. It has no answer when the address of a page overflows, or when
it takes more rounds than there is fuel. -/
def checkPages (lastPage : Word) : Nat → Word → Option Bool
  | 0, _ => none
  | fuel + 1, page =>
    if page ≤ lastPage then
      if isCanonical page = false then some false
      else
        match walkUserAccessible tables pml4 page access with
        | .error _ => some false
        | .ok () =>
          if page.toNat + 0x1000 < 2 ^ 64 then checkPages lastPage fuel (page + 0x1000) else none
    else some true

/-- `validated_range`, with the window `user_window` gives. -/
def validatedRange (window : Word × Word) (buf len : Word) (fuel : Nat) :
    Option (Option UserSlice) :=
  if len = 0 then some (some ⟨buf, len⟩)
  else if 2 ^ 64 ≤ buf.toNat + len.toNat then some none
  else
    let past := buf + len
    if buf < window.1 ∨ window.2 < past then some none
    else do
      let ok ← checkPages tables pml4 access (pageOf (past - 1)) fuel (pageOf buf)
      if ok then some (some ⟨buf, len⟩) else some none

def PagePasses (page : Word) : Prop :=
  isCanonical page = true ∧ walkUserAccessible tables pml4 page access = .ok ()

structure ByteAllowed (window : Word × Word) (address : Word) : Prop where
  inside : window.1 ≤ address ∧ address < window.2
  canonical : isCanonical address = true
  page : walkUserAccessible tables pml4 (pageOf address) access = .ok ()

end

variable {tables : Tables} {pml4 : Word} {access : UserAccess}

theorem windowForSubtree_aligned {index : Nat} (entry : index < 512) :
    pageOf (windowForSubtree index).1 = (windowForSubtree index).1 ∧
    pageOf (windowForSubtree index).2 = (windowForSubtree index).2 := by
  revert index
  decide +kernel

theorem toNat_sub_one {word : Word} (positive : 0 < word.toNat) :
    (word - 1).toNat = word.toNat - 1 := by
  rw [BitVec.toNat_sub]
  show (2 ^ 64 - 1 + word.toNat) % 2 ^ 64 = _
  have := word.isLt
  omega

theorem checkPages_spec {lastPage : Word} (whole : lastPage.toNat % 4096 = 0)
    (room : lastPage.toNat + 4096 < 2 ^ 64) (fuel : Nat) (page : Word)
    (aligned : page.toNat % 4096 = 0) (within : page.toNat ≤ lastPage.toNat + 4096)
    (enough : lastPage.toNat + 4096 < page.toNat + 4096 * fuel) :
    ∃ ok, checkPages tables pml4 access lastPage fuel page = some ok ∧
      (ok = true ↔ ∀ p : Word, p.toNat % 4096 = 0 → page ≤ p → p ≤ lastPage →
        PagePasses tables pml4 access p) := by
  induction fuel generalizing page with
  | zero => omega
  | succ fuel ih =>
    rw [checkPages]
    by_cases more : page ≤ lastPage
    · rw [if_pos more]
      rw [BitVec.le_def] at more
      by_cases canonical : isCanonical page = false
      · refine ⟨false, if_pos canonical, iff_of_false (by decide) fun all => ?_⟩
        have := (all page aligned (BitVec.le_refl page) (by rw [BitVec.le_def]; exact more)).1
        rw [canonical] at this
        cases this
      rw [if_neg canonical]
      cases walk : walkUserAccessible tables pml4 page access with
      | error e =>
        refine ⟨false, rfl, iff_of_false (by decide) fun all => ?_⟩
        have := (all page aligned (BitVec.le_refl page) (by rw [BitVec.le_def]; exact more)).2
        rw [walk] at this
        cases this
      | ok u =>
        have next : (page + 0x1000 : Word).toNat = page.toNat + 4096 := by
          rw [BitVec.toNat_add]
          show (page.toNat + 4096) % 2 ^ 64 = _
          omega
        obtain ⟨ok, ended, passes⟩ := ih (page + 0x1000) (by omega) (by omega) (by omega)
        refine ⟨ok, by dsimp only; rw [if_pos (by omega)]; exact ended, passes.trans ?_⟩
        refine ⟨fun rest p whole from' to' => ?_, fun all p whole from' => all p whole ?_⟩
        · -- The page itself, or one after it.
          by_cases first : p = page
          · exact first ▸ ⟨Bool.eq_true_of_not_eq_false canonical, walk⟩
          · refine rest p whole ?_ to'
            have other : p.toNat ≠ page.toNat := fun same => first (BitVec.eq_of_toNat_eq same)
            rw [BitVec.le_def] at from' ⊢
            omega
        · rw [BitVec.le_def] at from' ⊢
          omega
    · rw [if_neg more]
      refine ⟨true, rfl, iff_of_true rfl fun p _ from' to' => absurd ?_ more⟩
      exact BitVec.le_trans from' to'

variable (tables pml4 access) in
theorem allowed_iff_pages (window : Word × Word) {buf past : Word} (some : buf < past) :
    (∀ address, buf ≤ address → address < past → ByteAllowed tables pml4 access window address) ↔
      (window.1 ≤ buf ∧ past ≤ window.2) ∧
      ∀ p : Word, p.toNat % 4096 = 0 → pageOf buf ≤ p → p ≤ pageOf (past - 1) →
        PagePasses tables pml4 access p := by
  simp only [BitVec.lt_def, BitVec.le_def, toNat_pageOf] at some ⊢
  have last := toNat_sub_one (show 0 < past.toNat by omega)
  rw [last]
  constructor
  · intro allowed
    have first := (allowed buf le_rfl some).inside
    have final := (allowed (past - 1) (by omega) (by omega)).inside
    rw [BitVec.le_def, BitVec.lt_def] at first final
    refine ⟨⟨first.1, by omega⟩, fun p whole from' to' => ?_⟩
    -- The first byte of the page that is in the range.
    have byte : ∃ address : Word, pageOf address = p ∧ buf.toNat ≤ address.toNat ∧
        address.toNat < past.toNat := by
      by_cases begins : buf.toNat ≤ p.toNat
      · refine ⟨p, BitVec.eq_of_toNat_eq ?_, begins, by omega⟩
        rw [toNat_pageOf]
        omega
      · refine ⟨buf, BitVec.eq_of_toNat_eq ?_, le_rfl, some⟩
        rw [toNat_pageOf]
        omega
    obtain ⟨address, page, after, before⟩ := byte
    have byteAllowed := allowed address after before
    exact ⟨by rw [← page, isCanonical_pageOf]; exact byteAllowed.canonical,
      page ▸ byteAllowed.page⟩
  · rintro ⟨inside, pages⟩ address after before
    have page := pages (pageOf address) (by rw [toNat_pageOf]; omega)
      (by rw [toNat_pageOf]; omega) (by rw [toNat_pageOf]; omega)
    refine ⟨?_, by rw [← isCanonical_pageOf]; exact page.1, page.2⟩
    rw [BitVec.le_def, BitVec.lt_def]
    omega

/-- A range that is not empty is accepted exactly when it does not overflow and each of its bytes is
in the window, canonical, and in a page that the program may touch in this way. The check ends. -/
theorem validatedRange_accepts (tables : Tables) (pml4 : Word) (access : UserAccess)
    (window : Word × Word) (aligned : pageOf window.1 = window.1 ∧ pageOf window.2 = window.2)
    (buf len : Word) (positive : 0 < len) (fuel : Nat) (enough : len.toNat / 4096 + 3 ≤ fuel) :
    ∃ answer, validatedRange tables pml4 access window buf len fuel = some answer ∧
      (answer = none ∨ answer = some ⟨buf, len⟩) ∧
      (answer.isSome = true ↔
        buf.toNat + len.toNat < 2 ^ 64 ∧
        ∀ address : Word, buf ≤ address → address.toNat < buf.toNat + len.toNat →
          ByteAllowed tables pml4 access window address) := by
  rw [BitVec.lt_def] at positive
  have zero : (0 : Word).toNat = 0 := rfl
  rw [validatedRange, if_neg fun empty => by rw [empty] at positive; omega]
  by_cases overflows : 2 ^ 64 ≤ buf.toNat + len.toNat
  · exact ⟨none, if_pos overflows, .inl rfl, iff_of_false (by nofun) fun ⟨fits, _⟩ => by omega⟩
  rw [if_neg overflows]
  have past : (buf + len).toNat = buf.toNat + len.toNat := by
    rw [BitVec.toNat_add]
    omega
  have iffPages := allowed_iff_pages tables pml4 access window
    (show buf < buf + len by rw [BitVec.lt_def]; omega)
  simp only [BitVec.lt_def (y := buf + len), past] at iffPages
  dsimp only
  by_cases outside : buf < window.1 ∨ window.2 < buf + len
  · refine ⟨none, if_pos outside, .inl rfl, iff_of_false (by nofun) fun ⟨_, allowed⟩ => ?_⟩
    have inside := (iffPages.mp allowed).1
    rw [BitVec.le_def, BitVec.le_def] at inside
    rw [BitVec.lt_def, BitVec.lt_def] at outside
    omega
  rw [if_neg outside]
  rw [BitVec.lt_def, BitVec.lt_def] at outside
  -- The window ends a page before the last address, so the loop does not wrap.
  have ends := congrArg BitVec.toNat aligned.2
  rw [toNat_pageOf] at ends
  have last : (pageOf (buf + len - 1)).toNat = (buf.toNat + len.toNat - 1) / 4096 * 4096 := by
    rw [toNat_pageOf, toNat_sub_one (by omega), past]
  have first := toNat_pageOf buf
  have bound := window.2.isLt
  obtain ⟨ok, ended, passes⟩ := checkPages_spec
    (show (pageOf (buf + len - 1)).toNat % 4096 = 0 by omega) (by omega) fuel (pageOf buf) (by omega)
    (by omega) (by omega)
  have inside : window.1 ≤ buf ∧ buf + len ≤ window.2 := by
    rw [BitVec.le_def, BitVec.le_def]
    omega
  have answer : ok = true ↔ ∀ address : Word, buf ≤ address →
      address.toNat < buf.toNat + len.toNat → ByteAllowed tables pml4 access window address :=
    passes.trans ⟨fun pages => iffPages.mpr ⟨inside, pages⟩, fun allowed => (iffPages.mp allowed).2⟩
  rw [ended]
  cases ok with
  | true => exact ⟨some ⟨buf, len⟩, rfl, .inr rfl, iff_of_true rfl ⟨by omega, answer.mp rfl⟩⟩
  | false =>
    exact ⟨none, rfl, .inl rfl,
      iff_of_false (by nofun) fun ⟨_, allowed⟩ => Bool.false_ne_true (answer.mpr allowed)⟩

/-- Tables that lead every address of one gigabyte to the same few frames, two of them for pages that
can be written. -/
def twoPages : Tables := fun table index =>
  if table = 0x1000 then 0x2007
  else if table = 0x2000 then 0x3007
  else if table = 0x3000 then 0x4007
  else if index < 2 then 0x5007 else 0x5005

/-- A range that begins inside a page and ends at the end of the next one. -/
theorem validatedRange_accepts_two_pages :
    validatedRange twoPages 0x1000 .write (windowForSubtree 0) 0x400FFF 0x1001 4 =
      some (some ⟨0x400FFF, 0x1001⟩) ∧
    ∃ answer, validatedRange twoPages 0x1000 .write (windowForSubtree 0) 0x400FFF 0x1001 4 =
        some answer ∧
      (answer = none ∨ answer = some ⟨0x400FFF, 0x1001⟩) ∧
      (answer.isSome = true ↔
        (0x400FFF : Word).toNat + (0x1001 : Word).toNat < 2 ^ 64 ∧
        ∀ address : Word, 0x400FFF ≤ address →
          address.toNat < (0x400FFF : Word).toNat + (0x1001 : Word).toNat →
          ByteAllowed twoPages 0x1000 .write (windowForSubtree 0) address) :=
  ⟨by decide,
    validatedRange_accepts twoPages 0x1000 .write (windowForSubtree 0)
      (windowForSubtree_aligned (by decide)) 0x400FFF 0x1001 (by decide) 4 (by decide)⟩

end Zaytos.Kernel.Paging
