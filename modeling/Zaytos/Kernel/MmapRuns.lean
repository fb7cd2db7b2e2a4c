import Zaytos.Kernel.MmapPages
import Zaytos.Kernel.UserPointer

set_option autoImplicit false

/-! Runs of `mmap` by programs that come and go. It maps all that it is asked for, or nothing, unless
its first page can be mapped and another one cannot, or lies outside the window. -/
namespace Zaytos.Kernel.MmapState

open Paging (PagePermissions windowForSubtree)

variable (k t : MmapState) (slot : Slot) (len prot fd offset : Nat)

def objectFrame (page : Nat) : Option Nat :=
  if k.isScreenFd slot fd then k.screen.bind fun surface => surfaceFrame surface page
  else
    match k.shmOf slot fd with
    | .ok shm => (k.memory.framesOf shm).bind fun object => object.1[page]?
    | .error _ => none

/-- The pages of the object are mapped from `base` on, where nothing was before, and no other page
of any program changes. -/
structure MapsObject (base : Nat) : Prop where
  aligned : pageSize ∣ base
  window : (windowForSubtree 0).1.toNat ≤ base ∧
    base + pagesFor len * pageSize ≤ (windowForSubtree 0).2.toNat
  beyond : userProgramStackTop ≤ base
  fresh : ∀ page < pagesFor len, k.translation slot (base / pageSize + page) = none
  maps : ∀ page < pagesFor len, ∃ frame p, k.objectFrame slot fd page = some frame ∧
    t.translation slot (base / pageSize + page) = some (frame, some p) ∧
    p.user = true ∧ p.write = decide (prot &&& protWrite ≠ 0) ∧ p.execute = false
  others : ∀ other page, (∀ i < pagesFor len, other = slot → page ≠ base / pageSize + i) →
    t.translation other page = k.translation other page

def MmapHolds : Prop :=
  let out := k.mmapFromRing3 slot len prot fd offset
  match out.1 with
  | .address base => MapsObject k out.2 slot len prot fd base
  | .error _ => ∀ other page, out.2.translation other page = k.translation other page
  | .panics => False

/-- When the first page can be mapped then all pages can, between the stack and the end of the
window. -/
def MmapFits : Prop :=
  ∀ frames, k.mmapFrames slot len prot fd offset = .ok frames → k.lent = false →
    (k.userMap slot).CanMap (k.next slot / pageSize) (frames.take 1) →
      (k.userMap slot).CanMap (k.next slot / pageSize) frames ∧ userProgramStackTop ≤ k.next slot ∧
        k.next slot + frames.length * pageSize ≤ (windowForSubtree 0).2.toNat

/-- Calls of `mmap`, and whatever else goes on: programs come and go and frames are taken. -/
inductive MmapAction where
  | mmap (slot : Slot) (len prot fd offset : Nat)
  | others (t : MmapState) (sound : t.memory.allocator.Sound)

/-- Only `mmap` touches `MMAP_NEXT`. -/
def mmapStep (k : MmapState) : MmapAction → Option MmapState
  | .mmap slot len prot fd offset => some (k.mmapFromRing3 slot len prot fd offset).2
  | .others t _ => some { t with next := k.next }

structure Booted : Prop where
  sound : k.memory.allocator.Sound
  next : k.next = fun _ => mmapBase

/-- What holds whenever `mmap` is called. -/
structure MmapReady : Prop where
  sound : k.memory.allocator.Sound
  aligned : ∀ slot, pageSize ∣ k.next slot
  within : ∀ slot, k.next slot < 2 ^ 64

variable {k t slot len prot fd offset}

theorem Booted.ready (start : k.Booted) : k.MmapReady := by
  apply MmapReady.mk
  · exact start.sound
  · intro slot
    rw [start.next]
    exact (by decide : pageSize ∣ mmapBase)
  · intro slot
    rw [start.next]
    exact (by decide : mmapBase < 2 ^ 64)

theorem setUserMap_translation (m : UserMap) (other : Slot) (page : Nat) :
    (k.setUserMap slot m).translation other page =
      if other = slot then m.translation page else k.translation other page := by
  by_cases same : other = slot
  · subst same
    simp [translation, UserMap.translation, userMap, setUserMap]
  · simp [translation, UserMap.translation, userMap, setUserMap, same]

theorem mmapFrames_ok {frames : List (Option Nat)}
    (asked : k.mmapFrames slot len prot fd offset = .ok frames) :
    0 < frames.length ∧ frames.length = pagesFor len ∧
      ∀ page < pagesFor len, frames[page]?.join = k.objectFrame slot fd page := by
  have some : 0 < len → 0 < pagesFor len := by
    intro positive
    rw [pagesFor]
    exact Nat.div_pos (by omega) (by decide)
  rw [mmapFrames] at asked
  split at asked
  · cases asked
  split at asked
  · cases asked
  split at asked
  · rename_i screen
    rw [screenFrames] at asked
    split at asked
    · cases asked
    rename_i surface there
    dsimp only at asked
    split at asked
    · cases asked
    rename_i good
    rw [← Except.ok.inj asked, List.length_map, List.length_range]
    refine ⟨some (by omega), rfl, fun page low => ?_⟩
    rw [objectFrame, if_pos screen, there]
    simp [low]
  · rename_i other
    split at asked
    · cases asked
    rename_i shm named
    split at asked
    · cases asked
    rename_i object shmLen there
    split at asked
    · cases asked
    rename_i good
    rw [← Except.ok.inj asked, List.length_map, List.length_take]
    refine ⟨by omega, by omega, fun page low => ?_⟩
    rw [objectFrame, if_neg other, named]
    dsimp only
    rw [there, List.getElem?_map, List.getElem?_take_of_lt low, Option.bind_some]
    cases object[page]? <;> rfl

theorem mmapFromRing3_ok {frames : List (Option Nat)}
    (asked : k.mmapFrames slot len prot fd offset = .ok frames) :
    k.mmapFromRing3 slot len prot fd offset = k.mapFrames slot frames (prot &&& protWrite ≠ 0) := by
  rw [mmapFromRing3, asked]

def replyOf (base : Nat) : MapOutcome → MmapReply
  | .mapped => .address base
  | .notCanonical => .error .einval
  | .refused => .error .enomem
  | .overflows => .panics

theorem replyOf_eq (base : Nat) (outcome : MapOutcome) :
    (match outcome with
      | .mapped => .address base
      | .notCanonical => .error .einval
      | .refused => .error .enomem
      | .overflows => .panics) = replyOf base outcome := by
  cases outcome <;> rfl

theorem mapFrames_lent {frames : List (Option Nat)} {write : Bool} (lent : k.lent = true) :
    (k.mapFrames slot frames write).1 = .error .enomem ∧
      (k.mapFrames slot frames write).2.translation = k.translation := by
  rw [mapFrames, if_pos lent]
  exact ⟨rfl, rfl⟩

theorem mapFrames_eq {frames : List (Option Nat)} {write : Bool} (free : k.lent = false) :
    let out := (k.userMap slot).mapPages (.userShared write) (k.next slot) frames
    (k.mapFrames slot frames write).1 = replyOf (k.next slot) out.1 ∧
      (k.mapFrames slot frames write).2.memory.allocator = out.2.allocator ∧
      ∀ other page, (k.mapFrames slot frames write).2.translation other page =
        if other = slot then out.2.translation page else k.translation other page := by
  rw [mapFrames]
  dsimp only
  rw [if_neg (Bool.eq_false_iff.mp free)]
  refine ⟨?_, rfl, fun other page => setUserMap_translation _ other page⟩
  exact replyOf_eq (k.next slot) _

theorem mapFrames_maps {frames : List (Option Nat)} (ready : k.MmapReady)
    (some : 0 < frames.length) (length : frames.length = pagesFor len)
    (object : ∀ page < pagesFor len, frames[page]?.join = k.objectFrame slot fd page)
    (free : k.lent = false)
    (can : (k.userMap slot).CanMap (k.next slot / pageSize) frames)
    (beyond : userProgramStackTop ≤ k.next slot)
    (window : k.next slot + frames.length * pageSize ≤ (windowForSubtree 0).2.toNat) :
    MapsObject k (k.mapFrames slot frames (prot &&& protWrite ≠ 0)).2 slot len prot fd
      (k.next slot) := by
  have left := @mapFrames_eq _ slot frames (prot &&& protWrite ≠ 0) free
  have base := Nat.div_mul_cancel (ready.aligned slot)
  have mapped := (@UserMap.mapPages_mapped_iff (k.userMap slot) _ (prot &&& protWrite ≠ 0) frames
    ready.sound (Or.inl (List.ne_nil_of_length_pos some))).mpr can
  have pages := UserMap.mapPages_translation frames can.low mapped
  rw [base] at pages
  apply MapsObject.mk
  · exact ready.aligned slot
  · constructor
    · exact le_trans (by decide) beyond
    · rw [← length]
      exact window
  · exact beyond
  · intro page low
    apply can.fresh
    rw [List.mem_range'_1]
    omega
  · intro page low
    have there : frames[page]? ≠ none := by
      rw [ne_eq, List.getElem?_eq_none_iff]
      omega
    have found := object page low
    cases here : frames[page]? with
    | none => exact absurd here there
    | some frame =>
      rw [here] at found
      cases frame with
      | none => exact absurd (List.mem_of_getElem? here) can.physical
      | some frame =>
        refine ⟨frame, .userShared (prot &&& protWrite ≠ 0), found.symm, ?_, rfl, rfl, rfl⟩
        rw [left.2.2, if_pos rfl, pages, if_pos (by omega), Nat.add_sub_cancel_left, here]
        rfl
  · intro other page outside
    rw [left.2.2]
    by_cases same : other = slot
    · subst same
      rw [if_pos rfl, pages]
      rw [if_neg]
      · rfl
      · intro inside
        apply outside (page - k.next other / pageSize)
        · omega
        · rfl
        · omega
    · rw [if_neg same]

theorem mapFrames_partly {frames : List (Option Nat)} (ready : k.MmapReady)
    (some : 0 < frames.length) (length : frames.length = pagesFor len) (free : k.lent = false)
    (first : (k.userMap slot).CanMap (k.next slot / pageSize) (frames.take 1))
    (holds : match (k.mapFrames slot frames (prot &&& protWrite ≠ 0)).1 with
      | .address base => MapsObject k (k.mapFrames slot frames (prot &&& protWrite ≠ 0)).2 slot len
          prot fd base
      | .error _ => ∀ other page, (k.mapFrames slot frames
          (prot &&& protWrite ≠ 0)).2.translation other page = k.translation other page
      | .panics => False) :
    (k.userMap slot).CanMap (k.next slot / pageSize) frames ∧ userProgramStackTop ≤ k.next slot ∧
      k.next slot + frames.length * pageSize ≤ (windowForSubtree 0).2.toNat := by
  have left := @mapFrames_eq _ slot frames (prot &&& protWrite ≠ 0) free
  have base := Nat.div_mul_cancel (ready.aligned slot)
  have ends := @UserMap.mapPages_mapped_iff (k.userMap slot) (k.next slot / pageSize)
    (prot &&& protWrite ≠ 0) frames ready.sound (Or.inl (List.ne_nil_of_length_pos some))
  cases frames with
  | nil => cases some
  | cons frame rest =>
    have changed := UserMap.mapPages_first (prot &&& protWrite ≠ 0) frame rest ready.sound first
    rw [base] at ends changed
    rw [left.1] at holds
    cases outcome : ((k.userMap slot).mapPages (.userShared (prot &&& protWrite ≠ 0))
        (k.next slot) (frame :: rest)).1 with
    | mapped =>
      rw [outcome] at holds ends
      have maps : MapsObject k _ slot len prot fd (k.next slot) := holds
      refine ⟨ends.mp rfl, maps.beyond, ?_⟩
      rw [length]
      exact maps.window.2
    | notCanonical =>
      rw [outcome] at holds
      have same := holds slot (k.next slot / pageSize)
      rw [left.2.2, if_pos rfl] at same
      exact absurd (same.trans (first.fresh _ List.mem_cons_self)) changed
    | refused =>
      rw [outcome] at holds
      have same := holds slot (k.next slot / pageSize)
      rw [left.2.2, if_pos rfl] at same
      exact absurd (same.trans (first.fresh _ List.mem_cons_self)) changed
    | overflows =>
      rw [outcome] at holds
      exact holds.elim

theorem mapFrames_stuck {frames : List (Option Nat)} (ready : k.MmapReady)
    (some : 0 < frames.length) (free : k.lent = false)
    (stuck : ¬(k.userMap slot).CanMap (k.next slot / pageSize) (frames.take 1)) :
    match (k.mapFrames slot frames (prot &&& protWrite ≠ 0)).1 with
      | .address base => MapsObject k (k.mapFrames slot frames (prot &&& protWrite ≠ 0)).2 slot len
          prot fd base
      | .error _ => ∀ other page, (k.mapFrames slot frames
          (prot &&& protWrite ≠ 0)).2.translation other page = k.translation other page
      | .panics => False := by
  have left := @mapFrames_eq _ slot frames (prot &&& protWrite ≠ 0) free
  have base := Nat.div_mul_cancel (ready.aligned slot)
  cases frames with
  | nil => cases some
  | cons frame rest =>
    have out := UserMap.mapPages_stuck (prot &&& protWrite ≠ 0) frame rest ready.sound
      (by rw [base]; exact ready.within slot) stuck
    dsimp only at out
    rw [base] at out
    have same : ∀ other page, (k.mapFrames slot (frame :: rest)
        (prot &&& protWrite ≠ 0)).2.translation other page = k.translation other page := by
      intro other page
      rw [left.2.2, out.2]
      by_cases here : other = slot
      · rw [if_pos here, here]
        rfl
      · rw [if_neg here]
    rw [left.1]
    cases out.1 with
    | inl gap =>
      rw [gap]
      exact same
    | inr refused =>
      rw [refused]
      exact same

theorem mapFrames_next (frames : List (Option Nat)) (write : Bool) :
    (k.mapFrames slot frames write).2.next =
      Function.update k.next slot ((k.next slot + frames.length * pageSize) % 2 ^ 64) := by
  rw [mapFrames]
  dsimp only
  split
  · rfl
  · rfl

theorem mmapHolds_iff (ready : k.MmapReady) :
    k.MmapHolds slot len prot fd offset ↔ k.MmapFits slot len prot fd offset := by
  cases asked : k.mmapFrames slot len prot fd offset with
  | error errno =>
    have holds : k.MmapHolds slot len prot fd offset := by
      rw [MmapHolds, mmapFromRing3, asked]
      exact fun _ _ => rfl
    exact iff_of_true holds fun frames ok => by cases asked.symm.trans ok
  | ok frames =>
    have object := mmapFrames_ok asked
    have fits : k.MmapFits slot len prot fd offset ↔ (k.lent = false →
        (k.userMap slot).CanMap (k.next slot / pageSize) (frames.take 1) →
        (k.userMap slot).CanMap (k.next slot / pageSize) frames ∧
          userProgramStackTop ≤ k.next slot ∧
          k.next slot + frames.length * pageSize ≤ (windowForSubtree 0).2.toNat) :=
      ⟨fun all => all frames asked, fun this others ok => by
        cases Except.ok.inj (asked.symm.trans ok)
        exact this⟩
    rw [fits, MmapHolds, mmapFromRing3_ok asked]
    cases free : k.lent with
    | true =>
      have lent := @mapFrames_lent _ slot frames (prot &&& protWrite ≠ 0) free
      rw [lent.1, lent.2]
      exact iff_of_true (fun _ _ => rfl) nofun
    | false =>
      constructor
      · intro holds _ first
        exact mapFrames_partly ready object.1 object.2.1 free first holds
      · intro fits
        by_cases first : (k.userMap slot).CanMap (k.next slot / pageSize) (frames.take 1)
        · have all := fits rfl first
          have mapped := (@UserMap.mapPages_mapped_iff (k.userMap slot) _
            (prot &&& protWrite ≠ 0) frames ready.sound
            (Or.inl (List.ne_nil_of_length_pos object.1))).mpr all.1
          rw [Nat.div_mul_cancel (ready.aligned slot)] at mapped
          rw [(mapFrames_eq free).1, mapped]
          exact mapFrames_maps ready object.1 object.2.1 object.2.2 free all.1 all.2.1 all.2.2
        · exact mapFrames_stuck ready object.1 free first

theorem MmapReady.step {a : MmapAction} (ready : k.MmapReady) (next : mmapStep k a = some t) :
    t.MmapReady := by
  cases a with
  | others other sound =>
    rw [← Option.some.inj next]
    exact ⟨sound, ready.aligned, ready.within⟩
  | mmap slot len prot fd offset =>
    rw [← Option.some.inj next, mmapFromRing3]
    split
    · exact ready
    · rename_i frames _
      have counter : ∀ other, (k.mapFrames slot frames (prot &&& protWrite ≠ 0)).2.next other =
          if other = slot then (k.next slot + frames.length * pageSize) % 2 ^ 64
          else k.next other := by
        intro other
        rw [mapFrames_next]
        by_cases same : other = slot
        · subst same
          rw [Function.update_self, if_pos rfl]
        · rw [Function.update_of_ne same, if_neg same]
      apply MmapReady.mk
      · cases free : k.lent with
        | true =>
          rw [mapFrames, if_pos free]
          exact ready.sound
        | false =>
          rw [(mapFrames_eq free).2.1]
          exact UserMap.mapPages_sound _ frames ready.sound
      · intro other
        rw [counter]
        split
        · have whole : pageSize ∣ k.next slot + frames.length * pageSize :=
            Dvd.dvd.add (ready.aligned slot) (Nat.dvd_mul_left _ _)
          exact (Nat.dvd_mod_iff (by decide)).mpr whole
        · exact ready.aligned other
      · intro other
        rw [counter]
        split
        · exact Nat.mod_lt _ (by decide)
        · exact ready.within other

/-- In every run of `mmap` by programs that come and go, a call is all or nothing, and fresh, exactly
when it fits. -/
theorem mmap_allOrNothing_iff {init : MmapState} (start : init.Booted)
    (reach : Reachable mmapStep init k) (slot : Slot) (len prot fd offset : Nat) :
    k.MmapHolds slot len prot fd offset ↔ k.MmapFits slot len prot fd offset :=
  mmapHolds_iff (reach.invariant start.ready fun _ _ _ ready next => ready.step next)

/-- A program whose image has one page, with an object of two pages as descriptor 3. -/
def imageAt (page : Nat) : MmapState where
  space _ := {
    pml4 := 10
    tables := [3, 2, 1].map fun level => ((level, page / entriesPerTable ^ level), 10 + level)
    leaves := [(page, ⟨14, false⟩)] }
  permissions _ := [(page, .userProgram true false)]
  files _ := ⟨fun fd => if fd.val = 3 then some (.shm 0) else none⟩
  memory := {
    shms := fun _ => ⟨true, [20, 21], 2 * pageSize, 1⟩
    framesHeld := 2
    allocator := ⟨8, [⟨100, 50⟩]⟩ }
  screen := none
  lent := false
  next _ := mmapBase

theorem imageAt_booted (page : Nat) : (imageAt page).Booted :=
  ⟨FrameAllocator.sound_single (by decide) (by decide) (by decide), rfl⟩

/-- An image below leaves room for both pages. -/
theorem mmap_allOrNothing_iff_room : (imageAt 0x400).MmapHolds 0 (2 * pageSize) 3 3 0 := by
  apply (mmap_allOrNothing_iff (imageAt_booted 0x400) .refl 0 (2 * pageSize) 3 3 0).mpr
  intro frames asked _ _
  have both : frames = [some 20, some 21] := (Except.ok.inj asked).symm
  rw [both]
  decide

/-- An image that has a page where the second one is to go: the first one stays mapped. -/
theorem mmap_keeps_first :
    (imageAt 0x10001).Booted ∧ ¬(imageAt 0x10001).MmapHolds 0 (2 * pageSize) 3 3 0 := by
  apply And.intro (imageAt_booted 0x10001)
  have refused : ((imageAt 0x10001).mmapFromRing3 0 (2 * pageSize) 3 3 0).1 = .error .enomem := by
    decide
  have changed : ((imageAt 0x10001).mmapFromRing3 0 (2 * pageSize) 3 3 0).2.translation 0 0x10000 ≠
      (imageAt 0x10001).translation 0 0x10000 := by
    decide
  rw [MmapHolds, refused]
  intro same
  exact changed (same 0 0x10000)

end Zaytos.Kernel.MmapState
