import Zaytos.Kernel.Heap

set_option autoImplicit false

/-! The heap keeps its arena cut into free blocks and the blocks of its allocations. -/
namespace Zaytos.Kernel.Heap

open Extent Threaded

abbrev Parted (x y : Piece) : Prop := ¬ (x.isFree = true ∧ y.isFree = true)

structure Laid (s e : Nat) (pieces : List Piece) : Prop where
  tiles : Tiles s pieces e
  parted : pieces.IsChain Parted
  sound : ∀ x ∈ pieces, x.Sound

structure Shown (h : HeapState) (pieces : List Piece) : Prop where
  list : Segment h.memory h.freeListHead (pieces.filter Piece.isFree) none
  headers : ∀ x ∈ pieces, x.Holds h.memory

variable {m : Bytes} {h : HeapState} {x u : Piece} {s e : Nat}
variable {pieces before after old mid : List Piece} {tail : Option Nat}

theorem Piece.Holds.of_free (free : x.isFree = true) : x.Holds m := by
  intro p used
  rw [Piece.isFree, Option.isNone_iff_eq_none] at free
  rw [free] at used
  cases used

theorem Laid.replace (laid : Laid s e (before ++ (old ++ after)))
    (tiles : ∀ a b, Tiles a old b → Tiles a mid b) (sound : ∀ y ∈ mid, y.Sound)
    (parted : (before ++ (mid ++ after)).IsChain Parted) : Laid s e (before ++ (mid ++ after)) := by
  obtain ⟨a, left, rest⟩ := tiles_append.mp laid.tiles
  obtain ⟨b, inner, right⟩ := tiles_append.mp rest
  refine ⟨tiles_append.mpr ⟨a, left, tiles_append.mpr ⟨b, tiles a b inner, right⟩⟩, parted,
    fun y mem => ?_⟩
  have known := laid.sound y
  simp only [List.mem_append] at mem known
  rcases mem with mem | mem | mem
  · exact known (.inl mem)
  · exact sound y mem
  · exact known (.inr (.inr mem))

theorem parted_used (used : x.isFree = false) :
    (before ++ x :: after).IsChain Parted ↔ before.IsChain Parted ∧ after.IsChain Parted := by
  rw [List.isChain_append, List.isChain_cons]
  constructor
  · rintro ⟨left, ⟨_, right⟩, _⟩
    exact ⟨left, right⟩
  · rintro ⟨left, right⟩
    refine ⟨left, ⟨fun y _ free => ?_, right⟩, fun y _ z mem free => ?_⟩
    · rw [used] at free
      exact Bool.false_ne_true free.1
    · obtain rfl : x = z := by simpa using mem
      rw [used] at free
      exact Bool.false_ne_true free.2

variable {F G : List Piece} {y : Piece} {size start : Nat} {next : Option Nat} {h' : HeapState}
  {r : Nat × Nat × Option Nat} {p : Live} {poison : Bool}

theorem filter_around (free : pieces.filter Piece.isFree = F ++ x :: G) :
    ∃ before after, pieces = before ++ x :: after ∧ before.filter Piece.isFree = F ∧
      after.filter Piece.isFree = G ∧ x.isFree = true := by
  obtain ⟨front, back, rfl, frontEq, backEq⟩ := List.filter_eq_append_iff.mp free
  obtain ⟨skipped, after, rfl, none, kind, afterEq⟩ := List.filter_eq_cons_iff.mp backEq
  refine ⟨front ++ skipped, after, by simp, ?_, afterEq, kind⟩
  rw [List.filter_append, frontEq, List.filter_eq_nil_iff.mpr none, List.append_nil]

theorem Laid.bounds (laid : Laid s e pieces) (mem : x ∈ pieces) :
    s ≤ x.start ∧ 16 ≤ x.size ∧ x.start + x.size ≤ e := by
  obtain ⟨low, _, high⟩ := laid.tiles.within mem
  exact ⟨low, (laid.sound x mem).large, high⟩

theorem Laid.apart {z : Piece} (laid : Laid s e pieces) (mem : y ∈ pieces) (mem' : z ∈ pieces)
    (differ : y ≠ z) : y.start + y.size ≤ z.start ∨ z.start + z.size ≤ y.start := by
  have ordered := laid.tiles.ordered
  obtain ⟨front, back, rfl⟩ := List.append_of_mem mem
  rw [List.pairwise_append, List.pairwise_cons] at ordered
  cases List.mem_append.mp mem' with
  | inl inFront => exact .inr (ordered.2.2 z inFront y List.mem_cons_self)
  | inr mem' =>
    cases List.mem_cons.mp mem' with
    | inl same => exact absurd same.symm differ
    | inr inBack => exact .inl (ordered.2.1.1 z inBack)

theorem Laid.beside (laid : Laid s e pieces) (mem : x ∈ pieces) (mem' : y ∈ pieces)
    (differ : x.isFree ≠ y.isFree) : x.start + x.size ≤ y.start ∨ y.start + y.size ≤ x.start := by
  apply laid.apart mem mem'
  intro same
  exact differ (congrArg Piece.isFree same)

theorem addressable_start (laid : Laid s e pieces) (pos : 0 < s) (bound : e ≤ 2 ^ 64)
    (mem : x ∈ pieces) : Addressable (some x.start) := by
  obtain ⟨low, large, high⟩ := laid.bounds mem
  intro a same
  cases same
  omega

theorem addressable_head {head : Option Nat} (laid : Laid s e pieces) (pos : 0 < s)
    (bound : e ≤ 2 ^ 64) (within : ∀ y ∈ G, y ∈ pieces) (list : Segment m head G none) :
    Addressable head := by
  rw [list.head_eq]
  intro a same
  cases G with
  | nil => cases same
  | cons y G => exact addressable_start laid pos bound (within y List.mem_cons_self) a same

theorem consumeNode_shows {plan : AllocPlan} {align : Nat}
    (planned : Planned x.start (x.start + x.size) size align plan)
    (front : Segment h.memory h.freeListHead F (some x.start))
    (back : Segment h.memory next G none) (tidy : Tidy (F ++ x :: G))
    (sound : ∀ y ∈ F ++ x :: G, y.Sound) (pos : 0 < x.start) (bound : x.start + x.size ≤ 2 ^ 64)
    (fits : Addressable next) : ∃ rest : List Piece, (rest = [] ∨ ∃ r, rest = [r]) ∧
      (∀ y ∈ rest, y.isFree = true ∧ y.Sound) ∧
      Tiles (x.start + plan.blockSize) rest (x.start + x.size) ∧
      Segment (h.consumeNode (F.getLast?.map lo) next plan).memory
        (h.consumeNode (F.getLast?.map lo) next plan).freeListHead (F ++ (rest ++ G)) none ∧
      ∀ p n, (∀ y ∈ F, p + n ≤ y.start ∨ y.start + y.size ≤ p) →
        p + n ≤ x.start + plan.blockSize ∨ x.start + x.size ≤ p →
        h.memory.SameOn (h.consumeNode (F.getLast?.map lo) next plan).memory p n := by
  obtain ⟨tidyFG, _, below, above⟩ := tidy.around
  obtain ⟨tidyF, _, across⟩ := tidy_append.mp tidyFG
  have soundF : ∀ y ∈ F, y.Sound := fun y mem => sound y (List.mem_append_left _ mem)
  have start := planned.blockStart
  rcases planned.split with ⟨whole, ends⟩ | ⟨cut, part, ends, aligned, large⟩
  · obtain ⟨linked, same⟩ := setNext_segment front tidyF soundF fits
    unfold HeapState.consumeNode
    rw [whole]
    refine ⟨[], .inl rfl, by simp, show x.start + plan.blockSize = _ by omega,
      segment_append.mpr ⟨next, linked, back.frame fun y mem => same _ _ fun z mem' =>
        .inr (le_of_lt (across z mem' y mem))⟩, fun p n clear _ => same p n clear⟩
  · unfold HeapState.consumeNode
    rw [part]
    dsimp only
    rw [nonNull_of_pos (by omega)]
    let r : Piece := ⟨cut, x.start + x.size - cut, none⟩
    have cutLow : x.start + plan.blockSize = cut := by rw [← start, ends]
    have apart : ∀ p n, p + n ≤ cut ∨ x.start + x.size ≤ p →
        h.memory.SameOn (writeNode h.memory cut ⟨x.start + x.size - cut, next⟩) p n :=
      fun p n clear => writeNode_sameOn (by omega)
    have behind : Segment (writeNode h.memory cut ⟨x.start + x.size - cut, next⟩) (some cut)
        (r :: G) none := by
      refine Segment.write (x := r) rfl (show x.start + x.size - cut < 2 ^ 64 by omega) fits
        (back.frame fun y mem => ?_)
      have := above y mem
      exact apart _ _ (.inr (le_of_lt this))
    have before := front.frame
      fun y mem => by
        have := below y mem
        have := (soundF y mem).large
        simp only [Piece.lo_eq, Piece.hi_eq] at *
        exact apart _ _ (.inl (by omega))
    obtain ⟨linked, same⟩ := setNext_segment
      (s := { h with memory := writeNode h.memory cut ⟨x.start + x.size - cut, next⟩ }) before tidyF
      soundF (show Addressable (some cut) from fun a mem => by cases mem; omega)
    have soundX := sound x (by simp)
    refine ⟨[r], .inr ⟨r, rfl⟩, ?_, ⟨cutLow.symm, by simp only [Piece.lo_eq, Piece.hi_eq, r]; omega, ?_⟩,
      segment_append.mpr ⟨some cut, linked, behind.frame fun y mem => same _ _ fun z mem' => ?_⟩,
      fun p n clear outside => (apart p n (cutLow ▸ outside)).trans (same p n clear)⟩
    · intro y mem
      rw [List.mem_singleton] at mem
      subst mem
      exact ⟨rfl, aligned, by have := soundX.start; have := soundX.size; simp only [r]; omega,
        by simp only [r]; omega, fun p used => nomatch used⟩
    · show cut + (x.start + x.size - cut) = x.start + x.size
      omega
    · refine .inr ?_
      rcases List.mem_cons.mp mem with rfl | mem
      · have := below z mem'
        simp only [Piece.lo_eq, Piece.hi_eq, r] at *
        omega
      · exact le_of_lt (across z mem' y mem)

theorem alloc_shows {layout : Layout} {r : Option Nat} (pos : 0 < s)
    (bound : e ≤ 2 ^ 64) (laid : Laid s e pieces) (shown : Shown h pieces)
    (took : alloc h layout = some (r, h')) : (r = none ∧ h' = h) ∨
    ∃ ptr before x u rest after, r = some ptr ∧ pieces = before ++ x :: after ∧ x.isFree = true ∧
      u.use = some ⟨ptr, layout⟩ ∧ (∀ y ∈ rest, y.isFree = true) ∧
      Laid s e (before ++ u :: (rest ++ after)) ∧ Shown h' (before ++ u :: (rest ++ after)) := by
  unfold alloc at took
  split at took
  · cases took
  split at took
  · cases took
  · simp only [Option.bind_eq_bind, Option.bind_eq_some_iff, Option.pure_def, Option.some.injEq,
      Prod.mk.injEq] at took
    obtain ⟨_, _, _, _, rfl, rfl⟩ := took
    exact .inl ⟨rfl, rfl⟩
  rename_i found find
  cases took
  obtain ⟨F, x, G, free, prevEq, back, fits⟩ := findRegion_ok shown.list find
  obtain ⟨before, after, rfl, frontEq, backEq, isFree⟩ := filter_around free
  obtain ⟨k, _, power⟩ := layout.powerOfTwo
  rw [power] at fits
  have planned := planAllocation_ok fits
  have start := planned.blockStart
  have room := planned.room
  have header := planned.header
  have gap := planned.gap
  rw [start] at room
  have list := shown.list
  rw [free] at list
  obtain ⟨middle, front, rfl, _, _⟩ := segment_append.mp list
  have tidy := laid.tiles.tidy_filter laid.parted
  rw [free] at tidy
  have member : ∀ y ∈ F ++ x :: G, y ∈ before ++ x :: after := fun y mem => by
    rw [← free] at mem
    exact (List.mem_filter.mp mem).1
  have onFree : ∀ y ∈ F ++ x :: G, y.isFree = true := fun y mem => by
    rw [← free] at mem
    exact (List.mem_filter.mp mem).2
  have bounds := laid.bounds (member x (by simp))
  have soundX := laid.sound x (by simp)
  obtain ⟨tilesLeft, _, tilesRight⟩ := tiles_middle.mp laid.tiles
  obtain ⟨rest, short, restFree, tilesRest, listed, same⟩ := consumeNode_shows planned front back
    tidy (fun y mem => laid.sound y (member y mem)) (by omega) (by omega)
    (addressable_head laid pos bound (fun y mem => member y (by simp [mem])) back)
  rw [prevEq, Option.or_none]
  have leftover : x.start + found.plan.blockSize ≤ x.start + x.size := tilesRest.le
  let u : Piece := ⟨x.start, found.plan.blockSize, some ⟨found.plan.userAddr, layout⟩⟩
  have sizeWords : 8 ∣ found.plan.blockSize := by
    have := soundX.start
    have := soundX.size
    rcases planned.split with ⟨_, ends⟩ | ⟨cut, _, ends, aligned, _⟩ <;> omega
  have soundU : u.Sound := by
    refine ⟨soundX.start, sizeWords, show 16 ≤ found.plan.blockSize by omega, fun p used => ?_⟩
    cases used
    exact ⟨power ▸ planned.asked, planned.words, by dsimp only [u]; omega, by dsimp only [u]; omega⟩
  have chain : (before ++ u :: (rest ++ after)).IsChain Parted := by
    obtain ⟨left, chain, _⟩ := List.isChain_append.mp laid.parted
    obtain ⟨next, right⟩ := List.isChain_cons.mp chain
    refine (parted_used rfl).mpr ⟨left, ?_⟩
    rcases short with rfl | ⟨r, rfl⟩
    · exact right
    · exact List.isChain_cons.mpr ⟨fun y mem free => next y mem ⟨isFree, free.2⟩, right⟩
  have tilesU : ∀ a b, Tiles a [x] b → Tiles a (u :: rest) b := by
    rintro a b ⟨rfl, _, rfl⟩
    exact ⟨rfl, by simp only [Piece.lo_eq, Piece.hi_eq, u]; omega, tilesRest⟩
  -- The header lies in the block, in front of what is handed out.
  have clear : ∀ p n, p + n ≤ x.start ∨ x.start + found.plan.blockSize ≤ p → ∀ m' : Bytes,
      m'.SameOn (writeHeader m' found.plan.headerAddr
        ⟨headerMagic, found.plan.blockStart, found.plan.blockSize, layout.size⟩) p n :=
    fun p n outside m' => writeHeader_sameOn (by omega)
  refine .inr ⟨_, before, x, u, rest, after, rfl, rfl, isFree, rfl, fun y mem => (restFree y mem).1,
    laid.replace tilesU (fun y mem => ?_) chain, ?_, ?_⟩
  · rcases List.mem_cons.mp mem with rfl | mem
    · exact soundU
    · exact (restFree y mem).2
  · have newFree : (before ++ u :: (rest ++ after)).filter Piece.isFree = F ++ (rest ++ G) := by
      rw [List.filter_append, List.filter_cons_of_neg (by simp [u, Piece.isFree]),
        List.filter_append, frontEq, backEq,
        List.filter_eq_self.mpr fun y mem => (restFree y mem).1]
    rw [newFree]
    refine listed.frame fun y mem => clear _ _ ?_ _
    obtain ⟨_, _, below, above⟩ := tidy.around
    rcases List.mem_append.mp mem with inF | mem
    · have := below y inF
      have := (laid.sound y (member y (by simp [inF]))).large
      simp only [Piece.lo_eq, Piece.hi_eq] at *
      omega
    · rcases List.mem_append.mp mem with inRest | inG
      · exact .inr (tilesRest.within inRest).1
      · have := above y inG
        simp only [Piece.lo_eq, Piece.hi_eq] at *
        omega
  · intro y mem
    by_cases yFree : y.isFree = true
    · exact .of_free yFree
    rcases List.mem_append.mp mem with inLeft | mem
    · have known : y ∈ before ++ x :: after := by simp [inLeft]
      have := (tilesLeft.within inLeft).2.2
      refine (shown.headers y known).frame (laid.sound y known)
        ((same _ _ (fun z inF => ?_) (by simp only [Piece.lo_eq, Piece.hi_eq] at this; omega)).trans
          (clear _ _ (.inl this) _))
      exact laid.beside known (member z (by simp [inF]))
        (by rw [onFree z (by simp [inF])]; exact yFree)
    · rcases List.mem_cons.mp mem with rfl | mem
      · intro p used
        cases used
        dsimp only [u]
        rw [← header, Nat.add_sub_cancel, ← start]
        exact readHeader_writeHeader (by decide) (by omega) (by omega) layout.sizeFits
      · rcases List.mem_append.mp mem with inRest | inRight
        · exact absurd (restFree y inRest).1 yFree
        · have known : y ∈ before ++ x :: after := by simp [inRight]
          have := (tilesRight.within inRight).1
          simp only [Piece.lo_eq, Piece.hi_eq] at this
          refine (shown.headers y known).frame (laid.sound y known)
            ((same _ _ (fun z inF => ?_) (.inr this)).trans (clear _ _ (.inr (by omega)) _))
          exact laid.beside known (member z (by simp [inF]))
            (by rw [onFree z (by simp [inF])]; exact yFree)

theorem words_end (sound : ∀ y ∈ mid, y.Sound) (tiles : Tiles s mid e) (words : 8 ∣ s) : 8 ∣ e := by
  induction mid generalizing s with
  | nil =>
    have same : s = e := tiles
    exact same ▸ words
  | cons x mid ih =>
    obtain ⟨rfl, _, rest⟩ := tiles
    have soundX := sound x List.mem_cons_self
    exact ih (fun y mem => sound y (List.mem_cons_of_mem x mem)) rest
      (Nat.dvd_add soundX.start soundX.size)

theorem words_start (sound : ∀ y ∈ mid, y.Sound) (tiles : Tiles s mid e) (words : 8 ∣ e) : 8 ∣ s := by
  cases mid with
  | nil =>
    have same : s = e := tiles
    exact same ▸ words
  | cons x mid =>
    obtain ⟨rfl, _, _⟩ := tiles
    exact (sound x List.mem_cons_self).start

theorem mergeNext_shows (tiles : Tiles (start + size) after e) (parted : after.IsChain Parted)
    (list : Segment m next (after.filter Piece.isFree) none) (pos : 0 < size)
    (merge : mergeNext m start size next = some r) :
    ∃ joined back size' next', r = (start, size', next') ∧ after = joined ++ back ∧
      (∀ y ∈ joined, y.isFree = true) ∧ Tiles (start + size) joined (start + size') ∧
      Segment m next' (back.filter Piece.isFree) none ∧ ∀ y ∈ back.head?, ¬ y.isFree = true := by
  by_cases first : ∀ y ∈ after.head?, ¬ y.isFree = true
  · refine ⟨[], after, size, next, ?_, rfl, by simp, rfl, list, first⟩
    cases G : after.filter Piece.isFree with
    | nil =>
      rw [G] at list
      have ends : next = none := list
      subst ends
      exact (Option.some.inj merge).symm
    | cons z G =>
      have beyond := tiles.lt_of_head first (G ▸ List.mem_cons_self : z ∈ after.filter Piece.isFree)
      rw [G] at list
      obtain ⟨rfl, _, _⟩ := list
      simp only [mergeNext, Option.bind_eq_bind, Option.bind_eq_some_iff] at merge
      obtain ⟨merged, adjacent, merge⟩ := merge
      rw [Piece.lo_eq] at beyond adjacent
      rcases mergeAdjacent_before adjacent (by omega) with ⟨touches, _⟩ | ⟨_, rfl⟩
      · omega
      · exact (Option.some.inj merge).symm
  · push Not at first
    obtain ⟨y, head, free⟩ := first
    obtain ⟨back, rfl⟩ : ∃ back, after = y :: back := by
      cases after with
      | nil => cases head
      | cons z back =>
        cases head
        exact ⟨back, rfl⟩
    obtain ⟨begins, nonempty, rest⟩ := tiles
    rw [List.filter_cons_of_pos free] at list
    obtain ⟨rfl, length, list⟩ := list
    simp only [Piece.lo_eq, Piece.hi_eq] at begins length nonempty rest
    simp only [mergeNext, Option.bind_eq_bind, Option.bind_eq_some_iff] at merge
    obtain ⟨merged, adjacent, merge⟩ := merge
    rw [Piece.lo_eq] at adjacent
    rcases mergeAdjacent_before adjacent (by omega) with ⟨_, rfl⟩ | ⟨apart, _⟩
    · refine ⟨[y], back, _, _, (Option.some.inj merge).symm, rfl, by simpa using free, ?_, list,
        fun z mem also => (List.isChain_cons.mp parted).1 z mem ⟨free, also⟩⟩
      refine ⟨begins, by simp only [Piece.lo_eq, Piece.hi_eq]; omega, ?_⟩
      show y.start + y.size = start + (size + m.u64 y.start)
      omega
    · exact absurd begins.symm apart

theorem linkBlock_shows (tiles : Tiles s before start) (parted : before.IsChain Parted)
    (sound : ∀ y ∈ before, y.Sound)
    (front : Segment h.memory h.freeListHead (before.filter Piece.isFree) tail)
    (back : Segment h.memory (some start) (⟨start, size, none⟩ :: G) none)
    (after : Segment h.memory next G none) (above : ∀ y ∈ G, start + size ≤ y.start)
    (pos : 0 < s) (some' : 0 < size) (bound : start + size ≤ 2 ^ 64) (fits : Addressable next)
    (link : linkBlock h ((before.filter Piece.isFree).getLast?.map lo) start size next = some h') :
    ∃ left joined w, before = left ++ joined ∧ (∀ y ∈ joined, y.isFree = true) ∧ w.use = none ∧
      Tiles w.start joined start ∧ w.start + w.size = start + size ∧
      (∀ y ∈ left.getLast?, ¬ y.isFree = true) ∧
      Segment h'.memory h'.freeListHead (left.filter Piece.isFree ++ w :: G) none ∧
      ∀ p n, (∀ y ∈ before.filter Piece.isFree, p + n ≤ y.start ∨ y.start + y.size ≤ p) →
        h.memory.SameOn h'.memory p n := by
  have order := tiles.le
  have tidy := tiles.tidy_filter parted
  have freeSound : ∀ y ∈ before.filter Piece.isFree, y.Sound := fun y mem =>
    sound y (List.mem_filter.mp mem).1
  by_cases last : ∀ y ∈ before.getLast?, ¬ y.isFree = true
  · -- The node in front, if there is one, ends before the block.
    have linked : h' = h.setNext ((before.filter Piece.isFree).getLast?.map lo) (some start) := by
      cases q : (before.filter Piece.isFree).getLast? with
      | none =>
        rw [q] at link
        exact (Option.some.inj link).symm
      | some q' =>
        have beyond := tiles.lt_of_last last (List.mem_of_getLast? q)
        obtain ⟨F, same⟩ := List.getLast?_eq_some_iff.mp q
        rw [same] at front
        obtain ⟨_, _, rfl, length, _⟩ := segment_append.mp front
        simp only [q, Option.map_some, linkBlock, Option.bind_eq_bind, Option.bind_eq_some_iff]
          at link
        obtain ⟨merged, adjacent, link⟩ := link
        simp only [Piece.lo_eq, Piece.hi_eq] at beyond adjacent length
        rcases mergeAdjacent_before adjacent (by omega) with ⟨touches, _⟩ | ⟨_, rfl⟩
        · simp only [readNode] at touches
          omega
        · exact (Option.some.inj link).symm
    obtain ⟨moved, same⟩ := setNext_segment front tidy freeSound
      (show Addressable (some start) from fun a mem => by cases mem; omega)
    subst linked
    refine ⟨before, [], ⟨start, size, none⟩, by simp, by simp, rfl, rfl, rfl, last,
      segment_append.mpr ⟨some start, moved, back.frame fun y mem => same _ _ fun z inF => .inr ?_⟩,
      same⟩
    have before := (tiles.within (List.mem_filter.mp inF).1).2.2
    rcases List.mem_cons.mp mem with rfl | mem
    · exact before
    · have := above y mem
      simp only [Piece.lo_eq, Piece.hi_eq] at *
      omega
  · push Not at last
    obtain ⟨q, ends, free⟩ := last
    obtain ⟨left, rfl⟩ := List.getLast?_eq_some_iff.mp ends
    have cut : (left ++ [q]).filter Piece.isFree = left.filter Piece.isFree ++ [q] := by
      rw [List.filter_append, List.filter_cons_of_pos free, List.filter_nil]
    rw [cut] at front tidy link freeSound ⊢
    obtain ⟨middle, first, rfl, length, _⟩ := segment_append.mp front
    obtain ⟨tilesLeft, nonempty, touches⟩ := tiles_middle.mp tiles
    have touches : q.start + q.size = start := touches
    obtain ⟨_, _, below, _⟩ := tidy.around
    have large := (freeSound q (by simp)).large
    have apart : ∀ p n, p + n ≤ q.start ∨ start ≤ p → ∀ size',
        h.memory.SameOn (writeNode h.memory q.start ⟨size', next⟩) p n :=
      fun p n clear size' => writeNode_sameOn (by omega)
    simp only [List.getLast?_concat, Option.map_some, linkBlock, Option.bind_eq_bind,
      Option.bind_eq_some_iff] at link
    obtain ⟨merged, adjacent, link⟩ := link
    simp only [Piece.lo_eq, Piece.hi_eq] at adjacent length below
    have joins : merged = some (q.start, q.size + size) := by
      rcases mergeAdjacent_before adjacent (by omega) with ⟨_, rfl⟩ | ⟨gap, _⟩
      · simp only [readNode, length, Nat.add_sub_cancel_left]
      · simp only [readNode] at gap
        omega
    subst joins
    cases link
    let w : Piece := ⟨q.start, q.size + size, none⟩
    refine ⟨left, [q], w, rfl, by simpa using free, rfl, ⟨rfl, nonempty, touches⟩,
      by simp only [w]; omega, fun y mem also => ?_, ?_, fun p n clear => ?_⟩
    · obtain ⟨_, _, meet⟩ := List.isChain_append.mp parted
      exact meet y mem q rfl ⟨also, free⟩
    · refine segment_append.mpr ⟨some q.start, first.frame fun y mem => ?_, ?_⟩
      · have := below y mem
        have := (freeSound y (List.mem_append_left _ mem)).large
        exact apart _ _ (.inl (by simp only [Piece.lo_eq]; omega)) _
      · have := tilesLeft.le
        rw [Piece.lo_eq] at this
        refine Segment.write (x := w) rfl (show q.size + size < 2 ^ 64 by omega) fits
          (after.frame fun y mem => ?_)
        have := above y mem
        exact apart _ _ (.inr (by simp only [Piece.lo_eq]; omega)) _
    · have := clear q (by simp)
      exact apart p n (by omega) _

theorem dealloc_eq (bound : e ≤ 2 ^ 64)
    (laid : Laid s e (before ++ u :: after)) (shown : Shown h (before ++ u :: after))
    (used : u.use = some p) : dealloc poison h p.ptr p.layout =
      (mergeNext (fill poison h.memory u.start u.size) u.start u.size
        ((after.filter Piece.isFree).head?.map lo)).bind fun r => (nonNull r.1).bind fun _ =>
      linkBlock { h with memory := writeNode (fill poison h.memory u.start u.size) r.1 ⟨r.2.1, r.2.2⟩ }
        ((before.filter Piece.isFree).getLast?.map lo) r.1 r.2.1 r.2.2 := by
  have notFree : u.isFree = false := by rw [Piece.isFree, used]; rfl
  have header := shown.headers u (by simp) p used
  obtain ⟨_, _, behind, _⟩ := (laid.sound u (by simp)).placed p used
  have large := (laid.sound u (by simp)).large
  obtain ⟨tilesL, _, tilesR⟩ := tiles_middle.mp laid.tiles
  have list := shown.list
  rw [List.filter_append, List.filter_cons_of_neg (by simp [notFree])] at list
  have long : (before.filter Piece.isFree).length < walkBound := by
    have := tilesL.length_le
    have := List.length_filter_le Piece.isFree before
    have := tilesR.le
    simp only [Piece.lo_eq, Piece.hi_eq, walkBound] at *
    omega
  have low : ∀ y ∈ before.filter Piece.isFree, y.start ≤ u.start := fun y mem => by
    have := (tilesL.within (List.mem_filter.mp mem).1).2
    simp only [Piece.lo_eq, Piece.hi_eq] at this
    omega
  have high : ∀ y ∈ after.filter Piece.isFree, u.start < y.start := fun y mem => by
    have := (tilesR.within (List.mem_filter.mp mem).1).1
    simp only [Piece.lo_eq, Piece.hi_eq] at this
    omega
  have place : insertPosition h.memory u.start walkBound none h.freeListHead = _ :=
    insertPosition_eq list low high long
  rw [Option.or_none] at place
  unfold dealloc
  rw [sub_of_le (by dsimp only [headerSize]; omega), Option.bind_eq_bind, Option.bind_some, header]
  simp only [ne_eq, not_true_eq_false, ↓reduceIte, Option.bind_eq_bind]
  rw [place]
  rfl

/-- The memory `m` once the block of `u` is a node of `size` bytes that leads to `next`, which is
the first of the free pieces of `right`. -/
structure Returned (h : HeapState) (e : Nat) (before : List Piece) (u : Piece) (right : List Piece)
    (size : Nat) (next : Option Nat) (m : Bytes) : Prop where
  front : ∃ tail, Segment m h.freeListHead (before.filter Piece.isFree) tail
  behind : Segment m (some u.start) (⟨u.start, size, none⟩ :: right.filter Piece.isFree) none
  rest : Segment m next (right.filter Piece.isFree) none
  fits : Addressable next
  apart : ∀ p n, p + n ≤ u.start ∨ u.start + u.size ≤ p → h.memory.SameOn m p n
  above : ∀ y ∈ right.filter Piece.isFree, u.start + size ≤ y.start
  grown : u.size ≤ size
  ends : u.start + size ≤ e

theorem merged_returned (pos : 0 < s) (bound : e ≤ 2 ^ 64) (laid : Laid s e (before ++ u :: after))
    (shown : Shown h (before ++ u :: after)) (used : u.use = some p)
    (merge : mergeNext (fill poison h.memory u.start u.size) u.start u.size
      ((after.filter Piece.isFree).head?.map lo) = some r) :
    ∃ joined right size next, r = (u.start, size, next) ∧ after = joined ++ right ∧
      (∀ y ∈ joined, y.isFree = true) ∧ Tiles (u.start + u.size) joined (u.start + size) ∧
      (∀ y ∈ right.head?, ¬ y.isFree = true) ∧ Returned h e before u right size next
        (writeNode (fill poison h.memory u.start u.size) u.start ⟨size, next⟩) := by
  have notFree : u.isFree = false := by rw [Piece.isFree, used]; rfl
  have large := (laid.sound u (by simp)).large
  obtain ⟨_, partedR⟩ := (parted_used notFree).mp laid.parted
  obtain ⟨tilesL, _, tilesR⟩ := tiles_middle.mp laid.tiles
  simp only [Piece.lo_eq, Piece.hi_eq] at tilesL tilesR
  have list := shown.list
  rw [List.filter_append, List.filter_cons_of_neg (by simp [notFree])] at list
  obtain ⟨middle, front, back⟩ := segment_append.mp list
  have filled : ∀ p n, p + n ≤ u.start ∨ u.start + u.size ≤ p →
      h.memory.SameOn (fill poison h.memory u.start u.size) p n := fun p n clear => fill_sameOn clear
  have first : (after.filter Piece.isFree).head?.map lo = middle := by
    rw [back.head_eq, Option.or_none]
  rw [first] at merge
  obtain ⟨joined, right, size, next, rfl, rfl, free, tilesJ, backR, headR⟩ :=
    mergeNext_shows tilesR partedR (back.frame fun y mem => filled _ _
      (.inr (tilesR.within (List.mem_filter.mp mem).1).1)) (by omega) merge
  obtain ⟨_, inner, others⟩ := tiles_append.mp tilesR
  obtain rfl := tilesJ.end_unique inner
  have grown := tilesJ.le
  have ends := others.le
  have low := tilesL.le
  have apart : ∀ p n, p + n ≤ u.start ∨ u.start + u.size ≤ p → h.memory.SameOn
      (writeNode (fill poison h.memory u.start u.size) u.start ⟨size, next⟩) p n :=
    fun p n clear => (filled p n clear).trans (writeNode_sameOn (by omega))
  have above : ∀ y ∈ right.filter Piece.isFree, u.start + size ≤ y.start := fun y mem =>
    (others.within (List.mem_filter.mp mem).1).1
  have fits : Addressable next := addressable_head laid pos bound (fun y mem => by
    have := (List.mem_filter.mp mem).1
    simp [this]) backR
  have rest : Segment (writeNode (fill poison h.memory u.start u.size) u.start ⟨size, next⟩)
      next (right.filter Piece.isFree) none := backR.frame fun y mem => by
    have := above y mem
    exact writeNode_sameOn (.inr (by simp only [Piece.lo_eq]; omega))
  refine ⟨joined, right, size, next, rfl, rfl, free, tilesJ, headR, ⟨middle, front.frame fun y mem =>
    apart _ _ (.inl ?_)⟩, Segment.write (x := (⟨u.start, size, none⟩ : Piece)) rfl
      (show size < 2 ^ 64 by omega) fits rest, rest, fits, apart, above, by omega, ends⟩
  have known := (List.mem_filter.mp mem).1
  have := (tilesL.within known).2.2
  have := (laid.sound y (by simp [known])).large
  simp only [Piece.lo_eq, Piece.hi_eq] at *
  omega

theorem dealloc_shows (pos : 0 < s) (bound : e ≤ 2 ^ 64) (laid : Laid s e (before ++ u :: after))
    (shown : Shown h (before ++ u :: after)) (used : u.use = some p)
    (gave : dealloc poison h p.ptr p.layout = some h') :
    ∃ left joined w joined' right, before = left ++ joined ∧ after = joined' ++ right ∧
      (∀ y ∈ joined, y.isFree = true) ∧ (∀ y ∈ joined', y.isFree = true) ∧ w.use = none ∧
      Laid s e (left ++ w :: right) ∧ Shown h' (left ++ w :: right) := by
  have notFree : u.isFree = false := by rw [Piece.isFree, used]; rfl
  have soundU := laid.sound u (by simp)
  have large := soundU.large
  obtain ⟨partedL, partedR⟩ := (parted_used notFree).mp laid.parted
  obtain ⟨tilesL, _, tilesR⟩ := tiles_middle.mp laid.tiles
  simp only [Piece.lo_eq, Piece.hi_eq] at tilesL tilesR
  rw [dealloc_eq bound laid shown used] at gave
  obtain ⟨r, merge, gave⟩ := Option.bind_eq_some_iff.mp gave
  obtain ⟨_, _, link⟩ := Option.bind_eq_some_iff.mp gave
  obtain ⟨joined', right, size', next', rfl, rfl, free', tilesJ, headR, returned⟩ :=
    merged_returned pos bound laid shown used merge
  obtain ⟨tail, front⟩ := returned.front
  have grown := returned.grown
  have ends := returned.ends
  obtain ⟨left, joined, w, rfl, free, wUse, tilesW, size, last, listed, same⟩ := linkBlock_shows
    (h := ⟨_, h.freeListHead⟩) tilesL partedL (fun y mem => laid.sound y (by simp [mem])) front
    returned.behind returned.rest returned.above pos (by omega) (by omega) returned.fits link
  refine ⟨left, joined, w, joined', right, rfl, rfl, free, free', wUse, ?_, ?_, ?_⟩
  · have pieces : left ++ joined ++ u :: (joined' ++ right) =
        left ++ ((joined ++ u :: joined') ++ right) := by simp
    rw [pieces] at laid
    have known : ∀ y ∈ joined ++ u :: joined', y.Sound := fun y mem => laid.sound y (by
      simp only [List.mem_append] at mem ⊢
      exact .inr (.inl mem))
    have wStart : 8 ∣ w.start :=
      words_start (fun y mem => known y (by simp [mem])) tilesW soundU.start
    have wEnd : 8 ∣ u.start + size' :=
      words_end (fun y mem => known y (by simp [mem])) tilesJ (Nat.dvd_add soundU.start soundU.size)
    have wLow := tilesW.le
    refine laid.replace (fun a b tiles => ?_) (fun y (mem : y ∈ [w]) => ?_) ?_
    · obtain ⟨inL, _, inR⟩ := tiles_middle.mp tiles
      rw [← tilesW.start_unique inL]
      refine ⟨rfl, by simp only [Piece.lo_eq, Piece.hi_eq]; omega, ?_⟩
      show w.start + w.size = b
      rw [size]
      exact tilesJ.end_unique inR
    · rw [List.mem_singleton] at mem
      subst mem
      refine ⟨wStart, by omega, by omega, fun p used => ?_⟩
      rw [wUse] at used
      cases used
    · refine List.isChain_append.mpr ⟨(List.isChain_append.mp partedL).1, List.isChain_cons.mpr
        ⟨fun y mem free => headR y mem free.2, (List.isChain_append.mp partedR).2.1⟩,
        fun y mem z _ free => last y mem free.1⟩
  · have wFree : w.isFree = true := by rw [Piece.isFree, wUse]; rfl
    rw [List.filter_append, List.filter_cons_of_pos wFree]
    exact listed
  · intro y mem
    by_cases yFree : y.isFree = true
    · exact .of_free yFree
    have kept : y ∈ (left ++ joined) ++ u :: (joined' ++ right) →
        y.start + y.size ≤ u.start ∨ u.start + u.size ≤ y.start → y.Holds h'.memory :=
      fun known outside => (shown.headers y known).frame (laid.sound y known)
        ((returned.apart _ _ outside).trans (same _ _ fun z inF => by
          obtain ⟨zMem, zFree⟩ := List.mem_filter.mp inF
          exact laid.beside known (List.mem_append_left _ zMem) (by rw [zFree]; exact yFree)))
    rcases List.mem_append.mp mem with inL | mem
    · exact kept (by simp [inL]) (.inl (tilesL.within (List.mem_append_left _ inL)).2.2)
    · rcases List.mem_cons.mp mem with rfl | inR
      · exact absurd (by rw [Piece.isFree, wUse]; rfl) yFree
      · exact kept (by simp [inR]) (.inr (tilesR.within (List.mem_append_right _ inR)).1)

end Zaytos.Kernel.Heap
