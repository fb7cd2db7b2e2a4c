import Zaytos.Kernel.HeapPartition

set_option autoImplicit false

/-! Whether a second free is noticed.

The check reads the magic number in the header, and a free does not clear it: it is gone only where
the node of the free list, or the poison, was written over it. -/
namespace Zaytos.Kernel.Heap

open Extent Threaded

/-- A second free of what was handed out at `ptr` stops at the check of the magic number, so the
free list stays as it is. -/
def StopsAtMagic (poison : Bool) (h : HeapState) (p : Live) : Prop :=
  (readHeader h.memory (p.ptr - headerSize)).magic ≠ headerMagic ∧
    dealloc poison h p.ptr p.layout = none

def quietStep (poison : Bool) (w : World) : Event → Option World
  | .alloc _ => none
  | event => step poison w event

variable {m : Bytes} {h h' : HeapState} {x u : Piece} {s e a start size : Nat} {poison : Bool}
  {pieces before after : List Piece} {w w' : World} {p : Live} {prev next : Option Nat}

theorem stopsAtMagic_iff :
    StopsAtMagic poison h p ↔ h.memory.u64 (p.ptr - headerSize) ≠ headerMagic := by
  constructor
  · intro stops
    exact stops.1
  · intro differs
    apply And.intro differs
    rw [dealloc, Option.bind_eq_bind]
    cases below : sub p.ptr headerSize with
    | none => rfl
    | some headerPtr =>
      obtain ⟨_, rfl⟩ := sub_eq_some.mp below
      rw [Option.bind_some]
      exact if_pos differs

section Words

theorem eight_dvd_mod {v : Nat} (words : 8 ∣ v) : 8 ∣ v % 2 ^ 64 := by omega

theorem putU64_word {pos v : Nat} (place : 8 ∣ a) (pos_words : 8 ∣ pos) (words : 8 ∣ v) :
    (m.putU64 pos v).u64 a = m.u64 a ∨ 8 ∣ (m.putU64 pos v).u64 a := by
  by_cases same : a = pos
  · apply Or.inr
    rw [same, Bytes.u64_putU64]
    exact eight_dvd_mod words
  · apply Or.inl
    apply Bytes.u64_putU64_outside
    omega

theorem writeNode_word {pos size : Nat} (place : 8 ∣ a) (pos_words : 8 ∣ pos) (words : 8 ∣ size)
    (link : 8 ∣ addressOf next) :
    (writeNode m pos ⟨size, next⟩).u64 a = m.u64 a ∨ 8 ∣ (writeNode m pos ⟨size, next⟩).u64 a := by
  have second := @putU64_word (m.putU64 pos size) _ (pos + 8) _ place (by omega) link
  cases second with
  | inl same =>
    have first := @putU64_word m _ _ _ place pos_words words
    rw [← same] at first
    exact first
  | inr new => exact .inr new

theorem mergeAdjacent_size {aStart aSize bStart bSize start size : Nat}
    (merge : mergeAdjacent aStart aSize bStart bSize = some (some (start, size))) :
    size = aSize + bSize := by
  simp only [mergeAdjacent, Option.bind_eq_bind, Option.bind_eq_some_iff, add64_eq_some] at merge
  obtain ⟨_, ⟨_, rfl⟩, merge⟩ := merge
  split at merge
  · simp only [Option.bind_eq_some_iff, add64_eq_some, Option.pure_def, Option.some.injEq,
      Prod.mk.injEq] at merge
    obtain ⟨_, ⟨_, rfl⟩, _, rfl⟩ := merge
    rfl
  · simp only [Option.bind_eq_some_iff, add64_eq_some] at merge
    obtain ⟨_, ⟨_, rfl⟩, merge⟩ := merge
    split at merge
    · simp only [Option.bind_eq_some_iff, add64_eq_some, Option.pure_def, Option.some.injEq,
        Prod.mk.injEq] at merge
      obtain ⟨_, ⟨_, rfl⟩, _, rfl⟩ := merge
      rfl
    · cases merge

theorem linkBlock_word {start size : Nat} (place : 8 ∣ a) (words : 8 ∣ start) (sizeWords : 8 ∣ size)
    (link : 8 ∣ addressOf next) (node : ∀ q ∈ prev, 8 ∣ q ∧ 8 ∣ h.memory.u64 q)
    (linked : linkBlock h prev start size next = some h') :
    (h'.memory.u64 a = h.memory.u64 a ∨ 8 ∣ h'.memory.u64 a) ∧
      ((∀ q ∈ prev, a + 8 ≤ q ∨ q + 16 ≤ a) → h'.memory.u64 a = h.memory.u64 a) := by
  cases prev with
  | none =>
    cases linked
    exact ⟨.inl rfl, fun _ => rfl⟩
  | some q =>
    obtain ⟨qWords, length⟩ := node q rfl
    rw [linkBlock, Option.bind_eq_bind] at linked
    obtain ⟨merged, merge, linked⟩ := Option.bind_eq_some_iff.mp linked
    cases merged with
    | none =>
      cases linked
      constructor
      · exact putU64_word place (by omega) words
      · intro apart
        have := apart q rfl
        apply Bytes.u64_putU64_outside
        omega
    | some block =>
      obtain ⟨low, long⟩ := block
      cases linked
      have sum := mergeAdjacent_size merge
      simp only [readNode] at sum
      constructor
      · apply writeNode_word place qWords _ link
        omega
      · intro apart
        have := apart q rfl
        have same : h.memory.SameOn (writeNode h.memory q ⟨long, next⟩) a 8 :=
          writeNode_sameOn (by omega)
        exact same.u64 (by omega) (by omega)

end Words

section Freeing

theorem eight_dvd_addressOf {G : List Piece} (list : Segment m next G none)
    (sound : ∀ y ∈ G, y.Sound) : 8 ∣ addressOf next := by
  rw [list.head_eq]
  cases G with
  | nil => exact Nat.dvd_zero 8
  | cons y G => exact (sound y List.mem_cons_self).start

theorem dealloc_words {h' : HeapState} (pos : 0 < s) (bound : e ≤ 2 ^ 64)
    (laid : Laid s e (before ++ u :: after)) (shown : Shown h (before ++ u :: after))
    (used : u.use = some p) (gave : dealloc poison h p.ptr p.layout = some h') :
    ∃ long next, 8 ∣ long ∧ 8 ∣ addressOf next ∧ ∀ a, 8 ∣ a →
      (h'.memory.u64 a =
          (writeNode (fill poison h.memory u.start u.size) u.start ⟨long, next⟩).u64 a ∨
        8 ∣ h'.memory.u64 a) ∧
      ((∀ y ∈ before, y.isFree = true → a + 8 ≤ y.start ∨ y.start + 16 ≤ a) →
        h'.memory.u64 a =
          (writeNode (fill poison h.memory u.start u.size) u.start ⟨long, next⟩).u64 a) := by
  have soundU := laid.sound u (by simp)
  rw [dealloc_eq bound laid shown used] at gave
  obtain ⟨r, merge, gave⟩ := Option.bind_eq_some_iff.mp gave
  obtain ⟨_, _, link⟩ := Option.bind_eq_some_iff.mp gave
  obtain ⟨joined, right, long, next, rfl, rfl, _, tiles, _, returned⟩ :=
    merged_returned pos bound laid shown used merge
  have known : ∀ y ∈ joined, y.Sound := fun y mem => laid.sound y (by simp [mem])
  have ends : 8 ∣ u.start + long :=
    words_end known tiles (Nat.dvd_add soundU.start soundU.size)
  have longWords : 8 ∣ long := by
    have := soundU.start
    omega
  have nextWords : 8 ∣ addressOf next := by
    apply eight_dvd_addressOf returned.rest
    intro y mem
    exact laid.sound y (by simp [(List.mem_filter.mp mem).1])
  have node : ∀ q ∈ ((before.filter Piece.isFree).getLast?.map lo),
      ∃ y ∈ before, y.isFree = true ∧ q = y.start ∧ 8 ∣ q ∧
        8 ∣ (writeNode (fill poison h.memory u.start u.size) u.start ⟨long, next⟩).u64 q := by
    intro q last
    obtain ⟨y, ended, rfl⟩ := Option.map_eq_some_iff.mp last
    obtain ⟨inside, free⟩ := List.mem_filter.mp (List.mem_of_getLast? ended)
    have soundY := laid.sound y (by simp [inside])
    obtain ⟨tail, front⟩ := returned.front
    obtain ⟨F, same⟩ := List.getLast?_eq_some_iff.mp ended
    rw [same] at front
    obtain ⟨_, _, rfl, length, _⟩ := segment_append.mp front
    simp only [Piece.lo_eq, Piece.hi_eq] at length
    refine ⟨y, inside, free, rfl, soundY.start, ?_⟩
    have := soundY.size
    rw [Piece.lo_eq]
    omega
  refine ⟨long, next, longWords, nextWords, ?_⟩
  intro a place
  have words := linkBlock_word place soundU.start longWords nextWords
    (fun q mem => by
      obtain ⟨y, _, _, _, qWords, length⟩ := node q mem
      exact ⟨qWords, length⟩) link
  apply And.intro words.1
  intro apart
  apply words.2
  intro q mem
  obtain ⟨y, inside, free, rfl, _⟩ := node q mem
  exact apart y inside free

end Freeing

section Header

theorem fill_word {pos n : Nat} (lower : pos ≤ a) (upper : a + 8 ≤ pos + n) :
    (fill true m pos n).u64 a = 0xDEDEDEDEDEDEDEDE := by
  have byte (k : Nat) (small : k < 8) : (m.put pos n fun _ => 0xDE).get (a + k) = 0xDE :=
    Bytes.get_put_inside _ (by omega) (by omega)
  have first := byte 0 (by omega)
  rw [fill, if_pos rfl]
  simp only [Bytes.u64, Bytes.u32, Bytes.u16, add_assoc, Nat.reduceAdd, add_zero] at first ⊢
  rw [first, byte 1 (by omega), byte 2 (by omega), byte 3 (by omega), byte 4 (by omega),
    byte 5 (by omega), byte 6 (by omega), byte 7 (by omega)]
  rfl

theorem ne_magic {v : Nat} (words : 8 ∣ v) : v ≠ headerMagic := by
  dsimp only [headerMagic]
  omega

theorem freed_magic {long : Nat} (sound : u.Sound) (used : u.use = some p) (holds : u.Holds m)
    (longWords : 8 ∣ long) (link : 8 ∣ addressOf next) :
    (writeNode (fill poison m u.start u.size) u.start ⟨long, next⟩).u64 (p.ptr - headerSize) =
      headerMagic ↔ ¬ (poison = true ∨ p.ptr < u.start + 48) := by
  obtain ⟨_, words, behind, inside⟩ := sound.placed p used
  have startWords := sound.start
  have magic : m.u64 (p.ptr - headerSize) = headerMagic :=
    congrArg AllocatedBlockHeader.magic (holds p used)
  simp only [headerSize] at magic ⊢
  by_cases near : p.ptr < u.start + 48
  · have written : 8 ∣ (writeNode (fill poison m u.start u.size) u.start
        ⟨long, next⟩).u64 (p.ptr - 32) := by
      by_cases front : p.ptr = u.start + 32
      · have place : p.ptr - 32 = u.start := by omega
        rw [place, writeNode, Bytes.u64_putU64_outside (by omega), Bytes.u64_putU64]
        exact eight_dvd_mod longWords
      · have place : p.ptr - 32 = u.start + 8 := by omega
        rw [place, writeNode, Bytes.u64_putU64]
        exact eight_dvd_mod link
    have differs := ne_magic written
    simp [near, differs]
  · have apart : (fill poison m u.start u.size).SameOn
        (writeNode (fill poison m u.start u.size) u.start ⟨long, next⟩) (p.ptr - 32) 8 :=
      writeNode_sameOn (by omega)
    rw [apart.u64 (by omega) (by omega)]
    cases poison with
    | true =>
      rw [fill_word (by omega) (by omega)]
      simp
    | false =>
      rw [fill, if_neg Bool.false_ne_true, magic]
      simp [near]

/-- A block that was given back lies in a free one, and the magic number of its header is there or
is not. -/
structure Gone (start size : Nat) (lower upper header : Nat) (stays : Prop) (w : World)
    (pieces : List Piece) : Prop where
  kept : Kept start size w pieces
  covered : Covers pieces lower upper
  magic : w.heap.memory.u64 header = headerMagic ↔ stays

variable {lower upper header : Nat} {stays : Prop}

theorem Gone.dealloc {h' : HeapState} (arena : Arena start size)
    (gone : Gone start size lower upper header stays w pieces) (words : 8 ∣ header)
    (inside : lower ≤ header ∧ header + 8 ≤ upper) (far : stays → lower + 16 ≤ header)
    (mem : p ∈ w.live) (gave : Heap.dealloc poison w.heap p.ptr p.layout = some h') :
    ∃ pieces', Gone start size lower upper header stays ⟨h', w.live.erase p⟩ pieces' := by
  obtain ⟨before, u, after, rfl, used⟩ := gone.kept.piece mem
  have notFree : u.isFree = false := by rw [Piece.isFree, used]; rfl
  have laid := gone.kept.laid
  obtain ⟨y, known, free, below, above⟩ := gone.covered
  have beside : y.start + y.size ≤ u.start ∨ u.start + u.size ≤ y.start :=
    laid.beside known (by simp) (by rw [free, notFree]; simp)
  obtain ⟨long, next, longWords, link, wrote⟩ :=
    dealloc_words arena.pos arena.bound laid gone.kept.shown used gave
  obtain ⟨pieces', kept', _, covers⟩ := gone.kept.dealloc_covers arena used gave
  have large := (laid.sound u (by simp)).large
  have outside : (writeNode (fill poison w.heap.memory u.start u.size) u.start
      ⟨long, next⟩).u64 header = w.heap.memory.u64 header := by
    have filled : w.heap.memory.SameOn (fill poison w.heap.memory u.start u.size) header 8 :=
      fill_sameOn (by omega)
    have written : (fill poison w.heap.memory u.start u.size).SameOn
        (writeNode (fill poison w.heap.memory u.start u.size) u.start ⟨long, next⟩) header 8 :=
      writeNode_sameOn (by omega)
    exact (filled.trans written).u64 (by omega) (by omega)
  obtain ⟨either, same⟩ := wrote header words
  rw [outside] at either same
  refine ⟨pieces', kept', covers lower upper gone.covered, ?_⟩
  dsimp only
  by_cases kept : stays
  · have clear := far kept
    rw [same ?_]
    · exact gone.magic
    · intro z inBefore zFree
      by_cases own : z = y
      · rw [own]
        omega
      · have wide := (laid.sound z (by simp [inBefore])).large
        have := laid.apart known (by simp [inBefore]) (fun eq => own eq.symm)
        omega
  · have lost : w.heap.memory.u64 header ≠ headerMagic := fun there => kept (gone.magic.mp there)
    have still : h'.memory.u64 header ≠ headerMagic := by
      cases either with
      | inl unchanged => rwa [unchanged]
      | inr new => exact ne_magic new
    simp [kept, still]

theorem Gone.store {offset : Nat} {byte : UInt8}
    (gone : Gone start size lower upper header stays w pieces)
    (inside : lower ≤ header ∧ header + 8 ≤ upper) (mem : p ∈ w.live)
    (within : offset < p.layout.size) :
    Gone start size lower upper header stays
      { w with heap.memory := w.heap.memory.put (p.ptr + offset) 1 fun _ => byte } pieces := by
  obtain ⟨before, u, after, rfl, used⟩ := gone.kept.piece mem
  have notFree : u.isFree = false := by rw [Piece.isFree, used]; rfl
  obtain ⟨y, known, free, below, above⟩ := gone.covered
  have beside : y.start + y.size ≤ u.start ∨ u.start + u.size ≤ y.start :=
    gone.kept.laid.beside known (by simp) (by rw [free, notFree]; simp)
  obtain ⟨_, _, behind, room⟩ := (gone.kept.laid.sound u (by simp)).placed p used
  refine ⟨gone.kept.store mem within, gone.covered, ?_⟩
  dsimp only
  rw [Bytes.u64_put_outside _ (by omega)]
  exact gone.magic

theorem Gone.step {event : Event} (arena : Arena start size)
    (gone : Gone start size lower upper header stays w pieces) (words : 8 ∣ header)
    (inside : lower ≤ header ∧ header + 8 ≤ upper) (far : stays → lower + 16 ≤ header)
    (next : quietStep poison w event = some w') :
    ∃ pieces', Gone start size lower upper header stays w' pieces' := by
  cases event with
  | alloc layout => cases next
  | dealloc p =>
    rw [quietStep, Heap.step] at next
    · split at next
      · rename_i mem
        obtain ⟨heap, gave, next⟩ := Option.bind_eq_some_iff.mp next
        cases next
        exact gone.dealloc arena words inside far mem gave
      · cases next
    · simp
  | store p offset byte =>
    rw [quietStep, Heap.step] at next
    · split at next
      · rename_i held
        cases next
        exact ⟨pieces, gone.store inside held.1 held.2⟩
      · cases next
    · simp

end Header

/-- A second free without an allocation in between, whatever else is freed and written meanwhile,
stops at the magic number exactly in a build that poisons what is freed, or for an allocation whose
header begins less than a node's length behind its block. -/
theorem secondFree_stops_iff {first last : World} (arena : Arena start size) (m : Bytes)
    (reach : Reachable (step poison) (.boot m start size) w) (mem : p ∈ w.live)
    (freed : step poison w (.dealloc p) = some first)
    (quiet : Reachable (quietStep poison) first last) :
    StopsAtMagic poison last.heap p ↔ (poison = true ∨ p.ptr < (w.block p).start + 48) := by
  obtain ⟨pieces, kept⟩ := reach.invariant (P := fun w => ∃ pieces, Kept start size w pieces)
    ⟨_, boot_keeps arena m⟩ fun _ _ _ kept next => kept.elim fun _ kept => step_keeps arena kept next
  obtain ⟨before, u, after, rfl, used⟩ := kept.piece mem
  have sound := kept.laid.sound u (by simp)
  obtain ⟨_, ptrWords, behind, room⟩ := sound.placed p used
  have block := kept.block_eq (by simp) used
  rw [Heap.step, if_pos mem] at freed
  obtain ⟨heap, gave, freed⟩ := Option.bind_eq_some_iff.mp freed
  cases freed
  obtain ⟨long, next, longWords, link, wrote⟩ :=
    dealloc_words arena.pos arena.bound kept.laid kept.shown used gave
  obtain ⟨pieces', kept', covered, _⟩ := kept.dealloc_covers arena used gave
  have written : heap.memory.u64 (p.ptr - headerSize) = headerMagic ↔
      ¬ (poison = true ∨ p.ptr < u.start + 48) := by
    obtain ⟨_, same⟩ := wrote (p.ptr - headerSize) (by simp only [headerSize]; omega)
    rw [same ?_]
    · exact freed_magic sound used (kept.shown.headers u (by simp)) longWords link
    · intro y inBefore _
      obtain ⟨tilesL, _, _⟩ := tiles_middle.mp kept.laid.tiles
      have below := (tilesL.within inBefore).2.2
      have large := (kept.laid.sound y (by simp [inBefore])).large
      simp only [Piece.lo_eq, Piece.hi_eq] at below
      simp only [headerSize]
      omega
  have begun : Gone start size u.start (u.start + u.size) (p.ptr - headerSize)
      (¬ (poison = true ∨ p.ptr < u.start + 48)) ⟨heap, w.live.erase p⟩ pieces' :=
    ⟨kept', covered, written⟩
  obtain ⟨_, ended⟩ := quiet.invariant
    (P := fun last => ∃ pieces, Gone start size u.start (u.start + u.size) (p.ptr - headerSize)
      (¬ (poison = true ∨ p.ptr < u.start + 48)) last pieces) ⟨_, begun⟩
    (fun _ _ _ gone next => gone.elim fun _ gone => gone.step arena
      (by simp only [headerSize]; omega) (by simp only [headerSize]; omega)
      (by simp only [headerSize]; omega) next)
  have magic := ended.magic
  rw [stopsAtMagic_iff, block, Ne, magic, Classical.not_not]
  exact Iff.rfl

/-- Of two allocations one is freed, then the other is written to and freed. -/
theorem secondFree_stops_iff_two : ∃ w first last p,
    Reachable (step false) (.boot ⟨0, fun _ => 0⟩ 4096 256) w ∧ p ∈ w.live ∧
    step false w (.dealloc p) = some first ∧ Reachable (quietStep false) first last ∧
    last.live = [] ∧
    (StopsAtMagic false last.heap p ↔ (false = true ∨ p.ptr < (w.block p).start + 48)) := by
  let small : Layout := ⟨20, 1, by decide, 0, by decide, rfl⟩
  let other : Layout := ⟨24, 16, by decide, 4, by decide, rfl⟩
  let p : Live := ⟨4128, small⟩
  let q : Live := ⟨4192, other⟩
  have run : ((runSteps (step false) [.alloc small, .alloc other]
      (.boot ⟨0, fun _ => 0⟩ 4096 256)).bind fun w => (step false w (.dealloc p)).bind fun first =>
        (runSteps (quietStep false) [.store q 3 0xFF, .dealloc q] first).map fun last =>
          (decide (p ∈ w.live), last.live)) = some (true, []) := by decide
  obtain ⟨w, ends, run⟩ := Option.bind_eq_some_iff.mp run
  obtain ⟨first, freed, run⟩ := Option.bind_eq_some_iff.mp run
  obtain ⟨last, quiet, seen⟩ := Option.map_eq_some_iff.mp run
  rw [Prod.mk.injEq, decide_eq_true_eq] at seen
  have reach := Reachable.of_runSteps _ .refl ends
  have quiet := Reachable.of_runSteps _ .refl quiet
  exact ⟨w, first, last, p, reach, seen.1, freed, quiet, seen.2,
    secondFree_stops_iff ⟨by decide, by decide, by decide, by decide, by decide⟩ _ reach seen.1
      freed quiet⟩

/-- What is handed out at a multiple of 64 has its header a node's length and more behind its
block. Without poison the second free passes the checks and leads the free list back to itself. -/
theorem secondFree_passes : ∃ w first p again,
    Reachable (step false) (.boot ⟨0, fun _ => 0⟩ 4096 256) w ∧ p ∈ w.live ∧
    step false w (.dealloc p) = some first ∧ ¬ StopsAtMagic false first.heap p ∧
    dealloc false first.heap p.ptr p.layout = some again ∧ again.freeListHead = some 4096 ∧
    (readNode again.memory 4096).next = some 4096 := by
  let layout : Layout := ⟨8, 64, by decide, 6, by decide, rfl⟩
  let p : Live := ⟨4160, layout⟩
  have run : ((runSteps (step false) [.alloc layout] (.boot ⟨0, fun _ => 0⟩ 4096 256)).bind fun w =>
      (step false w (.dealloc p)).bind fun first =>
        (dealloc false first.heap p.ptr p.layout).map fun again =>
          (decide (p ∈ w.live), again.freeListHead, (readNode again.memory 4096).next)) =
      some (true, some 4096, some 4096) := by decide
  obtain ⟨w, ends, run⟩ := Option.bind_eq_some_iff.mp run
  obtain ⟨first, freed, run⟩ := Option.bind_eq_some_iff.mp run
  obtain ⟨again, twice, seen⟩ := Option.map_eq_some_iff.mp run
  rw [Prod.mk.injEq, Prod.mk.injEq, decide_eq_true_eq] at seen
  refine ⟨w, first, p, again, Reachable.of_runSteps _ .refl ends, seen.1, freed, ?_, twice, seen.2⟩
  intro stops
  rw [stops.2] at twice
  cases twice

end Zaytos.Kernel.Heap
