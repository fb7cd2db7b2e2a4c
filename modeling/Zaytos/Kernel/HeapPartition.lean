import Zaytos.Kernel.HeapRuns

set_option autoImplicit false

/-! Whatever is allocated, written and given back, the heap stays a partition of its arena. -/
namespace Zaytos.Kernel.Heap

open Extent Threaded

/-- What `init` is called with: whole words of memory with room for a node. -/
structure Arena (start size : Nat) : Prop where
  pos : 0 < start
  startWords : 8 ∣ start
  sizeWords : 8 ∣ size
  large : 16 ≤ size
  bound : start + size ≤ 2 ^ 64

/-- The arena is cut into the pieces, which the memory shows and the callers hold. -/
structure Kept (start size : Nat) (w : World) (pieces : List Piece) : Prop where
  laid : Laid start (start + size) pieces
  shown : Shown w.heap pieces
  live : w.live.Perm (pieces.filterMap Piece.use)

structure Partitioned (start size : Nat) (w : World) (blocks : List Block) : Prop where
  list : w.heap.freeBlocks = some blocks
  ordered : blocks.Pairwise fun a b => a.start + a.size < b.start
  large : ∀ b ∈ blocks, minBlockSize ≤ b.size
  words : ∀ b ∈ blocks, 8 ∣ b.start ∧ 8 ∣ b.size
  disjoint : (blocks ++ w.live.map w.block).Pairwise fun a b =>
    a.start + a.size ≤ b.start ∨ b.start + b.size ≤ a.start
  covers : ∀ n, n ∈ covered (blocks ++ w.live.map w.block) ↔ start ≤ n ∧ n < start + size
  placed : ∀ p ∈ w.live, p.layout.align ∣ p.ptr ∧ (w.block p).start + headerSize ≤ p.ptr ∧
    p.ptr + p.layout.size ≤ (w.block p).start + (w.block p).size
  usersDisjoint : w.live.Pairwise fun p q =>
    p.ptr + p.layout.size ≤ q.ptr ∨ q.ptr + q.layout.size ≤ p.ptr

variable {start size : Nat} {w w' : World} {pieces before after : List Piece} {x u : Piece} {p : Live}
  {poison : Bool}

theorem filterMap_free {l : List Piece} (free : ∀ y ∈ l, y.isFree = true) :
    l.filterMap Piece.use = [] :=
  List.filterMap_eq_nil_iff.mpr fun y mem => Option.isNone_iff_eq_none.mp (free y mem)

theorem boot_keeps (arena : Arena start size) (m : Bytes) :
    Kept start size (.boot m start size) [⟨start, size, none⟩] where
  laid := by
    have := arena.large
    refine ⟨⟨rfl, by simp only [Piece.lo_eq, Piece.hi_eq]; omega, rfl⟩, .singleton _, fun y mem => ?_⟩
    rw [List.mem_singleton] at mem
    subst mem
    exact ⟨arena.startWords, arena.sizeWords, arena.large, fun p used => nomatch used⟩
  shown := by
    have := arena.pos
    have := arena.bound
    refine ⟨?_, fun y mem => ?_⟩
    · show Segment (writeNode m start ⟨size, none⟩) (nonNull start) [(⟨start, size, none⟩ : Piece)] none
      rw [nonNull_of_pos arena.pos]
      exact Segment.write (x := (⟨start, size, none⟩ : Piece)) rfl (show size < 2 ^ 64 by omega)
        addressable_none rfl
    · rw [List.mem_singleton] at mem
      subst mem
      exact .of_free rfl
  live := .refl _

theorem Kept.piece (kept : Kept start size w pieces) (mem : p ∈ w.live) :
    ∃ before u after, pieces = before ++ u :: after ∧ u.use = some p := by
  obtain ⟨u, inside, used⟩ := List.mem_filterMap.mp (kept.live.mem_iff.mp mem)
  obtain ⟨before, after, rfl⟩ := List.append_of_mem inside
  exact ⟨before, u, after, rfl, used⟩

theorem Kept.alloc {layout : Layout} {r : Option Nat} {h' : HeapState} (arena : Arena start size)
    (kept : Kept start size w pieces) (took : alloc w.heap layout = some (r, h')) :
    ∃ pieces', Kept start size ⟨h', (r.map fun ptr => ⟨ptr, layout⟩).toList ++ w.live⟩ pieces' := by
  rcases alloc_shows arena.pos arena.bound kept.laid kept.shown took with ⟨rfl, rfl⟩ |
    ⟨ptr, before, x, u, rest, after, rfl, rfl, free, used, restFree, laid, shown⟩
  · exact ⟨pieces, kept.laid, kept.shown, kept.live⟩
  · refine ⟨_, laid, shown, ?_⟩
    have live := kept.live
    rw [List.filterMap_append, List.filterMap_cons_none (Option.isNone_iff_eq_none.mp free)] at live
    rw [List.filterMap_append, List.filterMap_cons_some used, List.filterMap_append,
      filterMap_free restFree, List.nil_append]
    exact (live.cons _).trans List.perm_middle.symm

def Covers (pieces : List Piece) (lower upper : Nat) : Prop :=
  ∃ y ∈ pieces, y.isFree = true ∧ y.start ≤ lower ∧ upper ≤ y.start + y.size

theorem Kept.dealloc_covers {h' : HeapState} (arena : Arena start size)
    (kept : Kept start size w (before ++ u :: after)) (used : u.use = some p)
    (gave : Heap.dealloc poison w.heap p.ptr p.layout = some h') :
    ∃ pieces', Kept start size ⟨h', w.live.erase p⟩ pieces' ∧
      Covers pieces' u.start (u.start + u.size) ∧
      ∀ lower upper, Covers (before ++ u :: after) lower upper → Covers pieces' lower upper := by
  obtain ⟨left, joined, y, joined', right, rfl, rfl, free, free', unused, laid, shown⟩ :=
    dealloc_shows arena.pos arena.bound kept.laid kept.shown used gave
  have live := kept.live
  rw [List.filterMap_append, List.filterMap_cons_some used, List.filterMap_append,
    List.filterMap_append, filterMap_free free, filterMap_free free', List.append_nil,
    List.nil_append] at live
  have erased := (live.trans List.perm_middle).erase p
  rw [List.erase_cons_head] at erased
  have grouped : left ++ joined ++ u :: (joined' ++ right) =
      left ++ ((joined ++ u :: joined') ++ right) := by simp
  have old := kept.laid.tiles
  rw [grouped] at old
  obtain ⟨low, tilesL, old⟩ := tiles_append.mp old
  obtain ⟨high, inner, tilesR⟩ := tiles_append.mp old
  obtain ⟨tilesL', _, tilesR'⟩ := tiles_middle.mp laid.tiles
  have lower : y.start = low := tilesL'.end_unique tilesL
  have upper : y.start + y.size = high := tilesR'.start_unique tilesR
  have yFree : y.isFree = true := by rw [Piece.isFree, unused]; rfl
  have around : ∀ z ∈ joined ++ u :: joined', y.start ≤ z.start ∧ z.start + z.size ≤ y.start + y.size := by
    intro z mem
    have within := inner.within mem
    simp only [Piece.lo_eq, Piece.hi_eq] at within
    omega
  refine ⟨left ++ y :: right, ⟨laid, shown, ?_⟩, ?_, ?_⟩
  · rw [List.filterMap_append, List.filterMap_cons_none unused]
    exact erased
  · have inside := around u (by simp)
    exact ⟨y, by simp, yFree, inside.1, inside.2⟩
  · intro lower upper covers
    obtain ⟨z, mem, zFree, below, above⟩ := covers
    rw [grouped, List.mem_append, List.mem_append] at mem
    cases mem with
    | inl inLeft => exact ⟨z, by simp [inLeft], zFree, below, above⟩
    | inr mem =>
      cases mem with
      | inl inMiddle =>
        have inside := around z inMiddle
        exact ⟨y, by simp, yFree, by omega, by omega⟩
      | inr inRight => exact ⟨z, by simp [inRight], zFree, below, above⟩

theorem Kept.dealloc {h' : HeapState} (arena : Arena start size) (kept : Kept start size w pieces)
    (mem : p ∈ w.live) (gave : dealloc poison w.heap p.ptr p.layout = some h') :
    ∃ pieces', Kept start size ⟨h', w.live.erase p⟩ pieces' := by
  obtain ⟨before, u, after, rfl, used⟩ := kept.piece mem
  obtain ⟨pieces', kept', _⟩ := kept.dealloc_covers arena used gave
  exact ⟨pieces', kept'⟩

theorem Kept.store {offset : Nat} {byte : UInt8} (kept : Kept start size w pieces)
    (mem : p ∈ w.live) (inside : offset < p.layout.size) :
    Kept start size { w with heap.memory := w.heap.memory.put (p.ptr + offset) 1 fun _ => byte }
      pieces := by
  obtain ⟨before, u, after, rfl, used⟩ := kept.piece mem
  obtain ⟨_, _, behind, room⟩ := (kept.laid.sound u (by simp)).placed p used
  obtain ⟨left, _, right⟩ := tiles_middle.mp kept.laid.tiles
  have apart : ∀ a n, a + n ≤ u.start + 32 ∨ u.start + u.size ≤ a → w.heap.memory.SameOn
      (w.heap.memory.put (p.ptr + offset) 1 fun _ => byte) a n :=
    fun a n clear => Bytes.put_sameOn _ (by omega)
  refine ⟨kept.laid, ⟨kept.shown.list.frame fun y free => ?_, fun y known => ?_⟩, kept.live⟩
  · obtain ⟨known, yFree⟩ := List.mem_filter.mp free
    have := (kept.laid.sound y known).large
    have := kept.laid.beside known (y := u) (by simp) (by rw [yFree, Piece.isFree, used]; simp)
    exact apart _ _ (by simp only [Piece.lo_eq]; omega)
  · have holds := kept.shown.headers y known
    have sound := kept.laid.sound y known
    rcases List.mem_append.mp known with inL | known
    · have := (left.within inL).2.2
      exact holds.frame sound (apart _ _ (.inl (by simp only [Piece.lo_eq, Piece.hi_eq] at this; omega)))
    · rcases List.mem_cons.mp known with rfl | inR
      · intro q same
        rw [used] at same
        cases same
        rw [← holds p used]
        have before : w.heap.memory.SameOn (w.heap.memory.put (p.ptr + offset) 1 fun _ => byte)
            (p.ptr - headerSize) 32 := Bytes.put_sameOn _ (by dsimp only [headerSize]; omega)
        unfold readHeader
        rw [before.u64 (by omega) (by omega), before.u64 (by omega) (by omega),
          before.u64 (by omega) (by omega), before.u64 (by omega) (by omega)]
      · exact holds.frame sound (apart _ _ (.inr (right.within inR).1))

theorem step_keeps {event : Event} (arena : Arena start size) (kept : Kept start size w pieces)
    (next : step poison w event = some w') : ∃ pieces', Kept start size w' pieces' := by
  cases event with
  | alloc layout =>
    obtain ⟨⟨r, heap⟩, took, next⟩ := Option.bind_eq_some_iff.mp next
    obtain ⟨pieces', kept'⟩ := kept.alloc arena took
    cases r <;> cases next <;> exact ⟨pieces', kept'⟩
  | dealloc p =>
    unfold step at next
    dsimp only at next
    split at next
    · rename_i mem
      obtain ⟨heap, gave, next⟩ := Option.bind_eq_some_iff.mp next
      cases next
      exact kept.dealloc arena mem gave
    · cases next
  | store p offset byte =>
    unfold step at next
    dsimp only at next
    split at next
    · rename_i held
      cases next
      exact ⟨pieces, kept.store held.1 held.2⟩
    · cases next

theorem Kept.block_eq (kept : Kept start size w pieces) (mem : x ∈ pieces) (used : x.use = some p) :
    w.block p = x.block := by
  have header := kept.shown.headers x mem p used
  unfold World.block
  rw [header]
  rfl

theorem Kept.shares (kept : Kept start size w pieces) :
    ((pieces.filter Piece.isFree).map Piece.block ++ w.live.map w.block).Perm
      (pieces.map Piece.block) := by
  have named : (pieces.filterMap Piece.use).map w.block =
      (pieces.filter fun x => !x.isFree).map Piece.block := by
    have all : ∀ l : List Piece, (∀ x ∈ l, x ∈ pieces) → (l.filterMap Piece.use).map w.block =
        (l.filter fun x => !x.isFree).map Piece.block := by
      intro l within
      induction l with
      | nil => rfl
      | cons x l ih =>
        have rest := ih fun y mem => within y (List.mem_cons_of_mem x mem)
        cases used : x.use with
        | none =>
          rw [List.filterMap_cons_none used, rest, List.filter_cons_of_neg (by simp [Piece.isFree, used])]
        | some p =>
          rw [List.filterMap_cons_some used, List.map_cons, rest,
            List.filter_cons_of_pos (by simp [Piece.isFree, used]), List.map_cons,
            kept.block_eq (within x List.mem_cons_self) used]
    exact all pieces fun _ mem => mem
  refine ((kept.live.map w.block).append_left _).trans ?_
  rw [named, ← List.map_append]
  exact (List.filter_append_perm _ _).map _

theorem mem_covered_blocks {n : Nat} : n ∈ covered (pieces.map Piece.block) ↔ n ∈ covered pieces := by
  constructor
  · rintro ⟨_, mem, inside⟩
    obtain ⟨x, known, rfl⟩ := List.mem_map.mp mem
    exact ⟨x, known, inside⟩
  · rintro ⟨x, mem, inside⟩
    exact ⟨x.block, List.mem_map_of_mem mem, inside⟩

theorem Kept.partitioned (arena : Arena start size) (kept : Kept start size w pieces) :
    Partitioned start size w ((pieces.filter Piece.isFree).map Piece.block) where
  list := by
    refine walk_eq kept.shown.list ?_
    have := kept.laid.tiles.length_le
    have := List.length_filter_le Piece.isFree pieces
    have := arena.bound
    have := arena.pos
    dsimp only [walkBound]
    omega
  ordered := List.pairwise_map.mpr (kept.laid.tiles.tidy_filter kept.laid.parted).apart
  large := by
    intro b mem
    obtain ⟨x, free, rfl⟩ := List.mem_map.mp mem
    exact (kept.laid.sound x (List.mem_filter.mp free).1).large
  words := by
    intro b mem
    obtain ⟨x, free, rfl⟩ := List.mem_map.mp mem
    have sound := kept.laid.sound x (List.mem_filter.mp free).1
    exact ⟨sound.start, sound.size⟩
  disjoint := by
    refine (kept.shares.pairwise_iff (fun apart => apart.symm)).mpr (List.pairwise_map.mpr ?_)
    exact kept.laid.tiles.ordered.imp fun above => .inl above
  covers n := by
    rw [← kept.laid.tiles.covered_iff, ← mem_covered_blocks]
    unfold covered
    simp only [Set.mem_ofPred_eq, kept.shares.mem_iff]
  placed := by
    intro p mem
    obtain ⟨before, x, after, rfl, used⟩ := kept.piece mem
    obtain ⟨aligned, _, behind, room⟩ := (kept.laid.sound x (by simp)).placed p used
    rw [kept.block_eq (by simp) used]
    exact ⟨aligned, behind, room⟩
  usersDisjoint := by
    refine (kept.live.pairwise_iff (fun apart => apart.symm)).mpr (List.pairwise_filterMap.mpr ?_)
    refine kept.laid.tiles.ordered.imp_of_mem fun {x y} inside inside' above p used q used' => ?_
    obtain ⟨_, _, _, room⟩ := (kept.laid.sound x inside).placed p used
    obtain ⟨_, _, behind, _⟩ := (kept.laid.sound y inside').placed q used'
    simp only [Piece.lo_eq, Piece.hi_eq] at above
    exact .inl (by omega)

theorem Kept.whole (arena : Arena start size) (kept : Kept start size w pieces) (none : w.live = []) :
    (pieces.filter Piece.isFree).map Piece.block = [⟨start, size⟩] := by
  have live := kept.live
  rw [none, List.nil_perm, List.filterMap_eq_nil_iff] at live
  have free : ∀ x ∈ pieces, x.isFree = true := fun x mem => Option.isNone_iff_eq_none.mpr (live x mem)
  rw [List.filter_eq_self.mpr free]
  obtain ⟨tiles, parted, _⟩ := kept.laid
  have large := arena.large
  match pieces, tiles, parted, free with
  | [], tiles, _, _ =>
    have empty : start = start + size := tiles
    omega
  | [x], ⟨begins, _, ends⟩, _, _ =>
    have begins : x.start = start := begins
    have ends : x.start + x.size = start + size := ends
    rw [List.map_singleton]
    congr 1
    show (⟨x.start, x.size⟩ : Block) = ⟨start, size⟩
    rw [begins, show x.size = size by omega]
  | x :: y :: rest, _, parted, free =>
    exact absurd ⟨free x (by simp), free y (by simp)⟩ (List.isChain_cons_cons.mp parted).1

/-- In every state that allocations, frees and writes lead to, the free list and the blocks of the
live allocations partition the arena, and without live allocations the list is the whole arena. -/
theorem heap_partitioned (arena : Arena start size) (m : Bytes)
    (reach : Reachable (step poison) (.boot m start size) w) :
    ∃ blocks, Partitioned start size w blocks ∧ (w.live = [] → blocks = [⟨start, size⟩]) := by
  obtain ⟨pieces, kept⟩ := reach.invariant (P := fun w => ∃ pieces, Kept start size w pieces)
    ⟨_, boot_keeps arena m⟩ fun _ _ _ ⟨_, kept⟩ next => step_keeps arena kept next
  exact ⟨_, kept.partitioned arena, kept.whole arena⟩

/-- Two allocations of which the first is given back. -/
theorem heap_partitioned_two : ∃ w, Reachable (step true) (.boot ⟨0, fun _ => 0⟩ 4096 256) w ∧
    w.live = [⟨4192, ⟨24, 16, by decide, 4, by decide, rfl⟩⟩] ∧
    ∃ blocks, Partitioned 4096 256 w blocks ∧ (w.live = [] → blocks = [⟨4096, 256⟩]) := by
  let first : Layout := ⟨20, 1, by decide, 0, by decide, rfl⟩
  let second : Layout := ⟨24, 16, by decide, 4, by decide, rfl⟩
  let events : List Event :=
    [.alloc first, .store ⟨4128, first⟩ 19 0xFF, .alloc second, .dealloc ⟨4128, first⟩]
  have run : ((runSteps (step true) events (.boot ⟨0, fun _ => 0⟩ 4096 256)).map World.live) =
      some [⟨4192, second⟩] := by decide
  obtain ⟨w, ends, live⟩ := Option.map_eq_some_iff.mp run
  have reach := Reachable.of_runSteps events .refl ends
  exact ⟨w, reach, live, heap_partitioned ⟨by decide, by decide, by decide, by decide, by decide⟩ _
    reach⟩

end Zaytos.Kernel.Heap

/-! Where the heap does not stop the kernel: what is live can be given back. -/
namespace Zaytos.Kernel.Heap

open Extent Threaded

variable {m : Bytes} {s e start size : Nat} {before after pieces : List Piece} {w : World} {p : Live}
  {poison : Bool} {tail : Option Nat}

theorem mergeAdjacent_isSome {aStart aSize bStart bSize : Nat} (aFits : aStart + aSize < 2 ^ 64)
    (bFits : bStart + bSize < 2 ^ 64) (sum : aSize + bSize < 2 ^ 64) :
    ∃ merged, mergeAdjacent aStart aSize bStart bSize = some merged := by
  unfold mergeAdjacent
  rw [add64_of_lt aFits, add64_of_lt bFits, add64_of_lt sum]
  simp only [Option.bind_eq_bind, Option.bind_some, Option.pure_def]
  split
  · exact ⟨_, rfl⟩
  · split <;> exact ⟨_, rfl⟩

theorem mergeNext_isSome {next : Option Nat} (tiles : Tiles (start + size) after e)
    (list : Segment m next (after.filter Piece.isFree) none) (bound : e < 2 ^ 64) :
    ∃ r, mergeNext m start size next = some r := by
  cases G : after.filter Piece.isFree with
  | nil =>
    rw [G] at list
    have ends : next = none := list
    subst ends
    exact ⟨_, rfl⟩
  | cons z G =>
    have inside := tiles.within (List.mem_filter.mp (G ▸ List.mem_cons_self :
      z ∈ after.filter Piece.isFree)).1
    rw [G] at list
    obtain ⟨rfl, length, _⟩ := list
    simp only [Piece.lo_eq, Piece.hi_eq] at inside length
    obtain ⟨merged, adjacent⟩ := mergeAdjacent_isSome (show start + size < 2 ^ 64 by omega)
      (show z.start + m.u64 z.start < 2 ^ 64 by omega) (by omega)
    simp only [mergeNext, readNode, Piece.lo_eq, adjacent, Option.bind_eq_bind, Option.bind_some]
    cases merged <;> exact ⟨_, rfl⟩

theorem linkBlock_isSome (h : HeapState) {next : Option Nat} (tiles : Tiles s before start)
    (front : Segment h.memory h.freeListHead (before.filter Piece.isFree) tail)
    (bound : start + size < 2 ^ 64) :
    ∃ h', linkBlock h ((before.filter Piece.isFree).getLast?.map lo) start size next = some h' := by
  cases last : (before.filter Piece.isFree).getLast? with
  | none => exact ⟨_, rfl⟩
  | some q =>
    have inside := tiles.within (List.mem_filter.mp (List.mem_of_getLast? last)).1
    obtain ⟨F, same⟩ := List.getLast?_eq_some_iff.mp last
    rw [same] at front
    obtain ⟨_, _, rfl, length, _⟩ := segment_append.mp front
    simp only [Piece.lo_eq, Piece.hi_eq] at inside length
    obtain ⟨merged, adjacent⟩ := mergeAdjacent_isSome
      (show q.start + h.memory.u64 q.start < 2 ^ 64 by omega) (show start + size < 2 ^ 64 by omega)
      (by omega)
    simp only [Option.map_some, linkBlock, readNode, Piece.lo_eq, adjacent, Option.bind_eq_bind,
      Option.bind_some]
    cases merged <;> exact ⟨_, rfl⟩

theorem Kept.dealloc_isSome (arena : Arena start size) (bound : start + size < 2 ^ 64)
    (kept : Kept start size w pieces) (mem : p ∈ w.live) :
    ∃ h', Heap.dealloc poison w.heap p.ptr p.layout = some h' := by
  obtain ⟨before, u, after, rfl, used⟩ := kept.piece mem
  have notFree : u.isFree = false := by rw [Piece.isFree, used]; rfl
  obtain ⟨tilesL, _, tilesR⟩ := tiles_middle.mp kept.laid.tiles
  have list := kept.shown.list
  rw [List.filter_append, List.filter_cons_of_neg (by simp [notFree])] at list
  obtain ⟨middle, _, back⟩ := segment_append.mp list
  have first : (after.filter Piece.isFree).head?.map lo = middle := by
    rw [back.head_eq, Option.or_none]
  obtain ⟨r, merge⟩ := mergeNext_isSome tilesR (m := fill poison w.heap.memory u.start u.size)
    (back.frame fun y free => fill_sameOn
      (.inr (tilesR.within (List.mem_filter.mp free).1).1)) bound
  rw [← first] at merge
  obtain ⟨joined, right, size', next, rfl, rfl, _, _, _, returned⟩ :=
    merged_returned arena.pos arena.bound kept.laid kept.shown used merge
  obtain ⟨_, front⟩ := returned.front
  have ends := returned.ends
  obtain ⟨h', link⟩ := linkBlock_isSome ⟨_, w.heap.freeListHead⟩ tilesL front
    (show _ + size' < 2 ^ 64 by simp only [Piece.lo_eq]; omega)
  have low := tilesL.le
  have pos := arena.pos
  refine ⟨h', ?_⟩
  rw [dealloc_eq arena.bound kept.laid kept.shown used, merge, Option.bind_some,
    nonNull_of_pos (by simp only [Piece.lo_eq] at low; omega), Option.bind_some]
  exact link

/-- From any state the heap comes to, what is live can be given back in any order, and then the
arena is one free block. -/
theorem heap_returns (arena : Arena start size) (m : Bytes) (bound : start + size < 2 ^ 64)
    (reach : Reachable (step poison) (.boot m start size) w) (order : List Live)
    (all : order.Perm w.live) : ∃ w', runSteps (step poison) (order.map .dealloc) w = some w' ∧
      w'.live = [] ∧ w'.heap.freeBlocks = some [⟨start, size⟩] := by
  obtain ⟨pieces, kept⟩ := reach.invariant (P := fun w => ∃ pieces, Kept start size w pieces)
    ⟨_, boot_keeps arena m⟩ fun _ _ _ kept next => kept.elim fun _ kept => step_keeps arena kept next
  clear reach
  induction order generalizing w pieces with
  | nil =>
    have none := List.nil_perm.mp all
    have parts := (kept.partitioned arena).list
    rw [kept.whole arena none] at parts
    exact ⟨w, rfl, none, parts⟩
  | cons p order ih =>
    have live := all.subset List.mem_cons_self
    have gives : ∃ heap, Heap.dealloc poison w.heap p.ptr p.layout = some heap :=
      kept.dealloc_isSome arena bound live
    obtain ⟨heap, gives⟩ := gives
    have stepped : step poison w (.dealloc p) = some ⟨heap, w.live.erase p⟩ := by
      rw [step, if_pos live, gives]
      rfl
    obtain ⟨pieces', kept'⟩ := step_keeps arena kept stepped
    have rest : order.Perm (w.live.erase p) := by
      have erased := all.erase p
      rwa [List.erase_cons_head] at erased
    obtain ⟨w', ran, ended⟩ := ih rest pieces' kept'
    rw [List.map_cons, runSteps, stepped, Option.bind_some]
    exact ⟨w', ran, ended⟩

theorem heap_returns_two : ∃ w w', Reachable (step true) (.boot ⟨0, fun _ => 0⟩ 4096 256) w ∧
    w.live.length = 2 ∧ runSteps (step true) (w.live.map .dealloc) w = some w' ∧
    w'.heap.freeBlocks = some [⟨4096, 256⟩] := by
  let first : Layout := ⟨20, 1, by decide, 0, by decide, rfl⟩
  let second : Layout := ⟨24, 16, by decide, 4, by decide, rfl⟩
  have run : ((runSteps (step true) [.alloc first, .alloc second]
      (.boot ⟨0, fun _ => 0⟩ 4096 256)).map fun w => w.live.length) = some 2 := by decide
  obtain ⟨w, ends, live⟩ := Option.map_eq_some_iff.mp run
  have reach := Reachable.of_runSteps _ .refl ends
  obtain ⟨w', ran, -, free⟩ := heap_returns ⟨by decide, by decide, by decide, by decide, by decide⟩
    _ (by decide) reach w.live (.refl _)
  exact ⟨w, w', reach, live, ran, free⟩

end Zaytos.Kernel.Heap
