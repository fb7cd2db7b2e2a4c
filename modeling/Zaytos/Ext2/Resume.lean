import Zaytos.Ext2.Walk

set_option autoImplicit false

/-! A directory walk goes on where an earlier one has stopped: the position that an entry
reports is all a new walk needs to find the entries behind it. -/
namespace Zaytos.Fs

variable {bytes : Bytes} {r : DirStep} {after walk' resumed : DirEntries} {e : DirEntry}
  {more fuel start k : Nat} {items items' : List (Except Ext2Error DirEntry)}

namespace DirEntries

/-- A walk of directory `inode`, whose loaded block is the one `file_block` gives. -/
structure Of (fs : Ext2) (inode : Inode) (walk : DirEntries) : Prop extends walk.Ok fs where
  inode_eq : walk.inode = inode
  read : ∀ bytes, walk.block = some bytes → fs.fileBlock inode walk.blockIndex = .ok bytes

/-- The walk stands behind the entry `e` that it has handed out. -/
structure Behind (fs : Ext2) (walk : DirEntries) (e : DirEntry) : Prop where
  running : walk.finished = false
  loaded : ∃ bytes, walk.block = some bytes ∧ walk.offset ≤ bytes.len
  next : e.nextOffset = walk.blockIndex * fs.blockSize + walk.offset
  short : e.name.length ≤ 255

def StepKeeps (fs : Ext2) (inode : Inode) : DirStep → Prop
  | .again after => after.Of fs inode
  | .item (some (.ok e)) after => after.Of fs inode ∧ after.Behind fs e
  | .item (some (.error _)) after => after.finished = true
  | .item none after => after.finished = true

section Accepted

variable {fs : Ext2} (valid : fs.Valid) {inode : Inode} {walk : DirEntries}
include valid

omit valid in
theorem recordStep_keeps (ok : walk.Of fs inode) (running : walk.finished = false)
    (loaded : walk.block = some bytes) (inside : walk.offset < bytes.len) :
    StepKeeps fs inode (walk.recordStep fs bytes) := by
  have progress := recordStep_ok ok.toOk running loaded inside
  unfold recordStep at progress ⊢
  dsimp only at progress ⊢
  split
  · rfl
  split
  · rfl
  rename_i long _ accepted
  rw [if_neg long, accepted] at progress
  dsimp only at progress
  obtain ⟨-, header, fits, -⟩ := Record.refusal_eq_none.mp accepted
  split
  · rename_i unused
    rw [if_pos unused] at progress
    exact ⟨progress.ok, ok.inode_eq, ok.read⟩
  · rename_i used
    rw [if_neg used] at progress
    refine ⟨⟨progress.ok, ok.inode_eq, ok.read⟩, running, ⟨bytes, loaded, ?_⟩, rfl, ?_⟩
    · show walk.offset + _ ≤ bytes.len
      omega
    · have small := (bytes.get (walk.offset + 6)).toNat_lt
      simp only [recordAt, Bytes.view, List.length_map, List.length_range]
      omega

theorem stepBlock_keeps (ok : walk.Of fs inode) (running : walk.finished = false)
    (loaded : walk.block = some bytes) (run : step.stepBlock fs walk bytes = some r) :
    StepKeeps fs inode r := by
  obtain ⟨r', run', progress⟩ := stepBlock_ok valid ok.toOk running loaded
  obtain rfl := Option.some.inj (run.symm.trans run')
  unfold step.stepBlock at run
  by_cases past : bytes.len ≤ walk.offset
  · rw [if_pos past] at run
    obtain ⟨index, -, rfl⟩ := Option.map_eq_some_iff.mp run
    exact ⟨progress.ok, ok.inode_eq, by simp⟩
  · rw [if_neg past, stepRecord_eq valid ok.toOk loaded] at run
    obtain rfl := Option.some.inj run
    exact recordStep_keeps ok running loaded (Nat.lt_of_not_le past)

theorem Of.load (ok : walk.Of fs inode) (read : fs.fileBlock inode walk.blockIndex = .ok bytes) :
    ({ walk with block := some bytes } : DirEntries).Of fs inode := by
  have sat := fileBlock_sat valid ok.slots ok.index_lt
  rw [ok.inode_eq, read] at sat
  refine ⟨⟨ok.slots, ok.size_lt, ok.count, ok.index_lt, ok.offset_le, ?_⟩, ok.inode_eq, ?_⟩
  · intro bytes' same
    obtain rfl := Option.some.inj same
    rw [ok.inode_eq]
    exact sat
  · intro bytes' same
    obtain rfl := Option.some.inj same
    exact read

theorem step_keeps (ok : walk.Of fs inode) (run : step fs walk = some r) :
    StepKeeps fs inode r := by
  unfold step at run
  by_cases finished : walk.finished = true
  · rw [if_pos finished] at run
    obtain rfl := Option.some.inj run
    exact finished
  have running : walk.finished = false := by simpa using finished
  rw [if_neg finished] at run
  split at run
  next unloaded =>
    split at run
    · obtain rfl := Option.some.inj run
      rfl
    · split at run
      next => cases run
      next e failed =>
        obtain rfl := Option.some.inj run
        rfl
      next bytes read =>
        rw [ok.inode_eq] at read
        exact stepBlock_keeps valid (ok.load valid read) running rfl run
  next bytes loaded => exact stepBlock_keeps valid ok running loaded run

theorem nextWithin_keeps (rounds : Nat) (ok : walk.Of fs inode)
    (run : nextWithin fs rounds walk = some (some (.ok e), after)) :
    after.Of fs inode ∧ after.Behind fs e := by
  induction rounds generalizing walk with
  | zero => cases run
  | succ rounds ih =>
    unfold nextWithin at run
    cases stepEq : step fs walk with
    | none =>
      rw [stepEq] at run
      cases run
    | some r =>
      rw [stepEq] at run
      have kept := step_keeps valid ok stepEq
      cases r with
      | again next => exact ih kept run
      | item item next =>
        obtain ⟨rfl, rfl⟩ := Prod.mk.inj (Option.some.inj run)
        exact kept

theorem nextWithin_stops (rounds : Nat) (ok : walk.Of fs inode) {e : Ext2Error}
    (run : nextWithin fs rounds walk = some (some (.error e), after)) :
    after.finished = true := by
  induction rounds generalizing walk with
  | zero => cases run
  | succ rounds ih =>
    unfold nextWithin at run
    cases stepEq : step fs walk with
    | none =>
      rw [stepEq] at run
      cases run
    | some r =>
      rw [stepEq] at run
      have kept := step_keeps valid ok stepEq
      cases r with
      | again next => exact ih kept run
      | item item next =>
        obtain ⟨rfl, rfl⟩ := Prod.mk.inj (Option.some.inj run)
        exact kept

omit valid in
theorem nextWithin_mono {rounds : Nat} (le : rounds ≤ more) {res : DirItem × DirEntries}
    (run : nextWithin fs rounds walk = some res) : nextWithin fs more walk = some res := by
  induction rounds generalizing walk more with
  | zero => cases run
  | succ rounds ih =>
    obtain ⟨k, rfl⟩ : ∃ k, more = k + 1 := ⟨more - 1, by omega⟩
    unfold nextWithin at run ⊢
    cases stepEq : step fs walk with
    | none =>
      rw [stepEq] at run
      cases run
    | some r =>
      rw [stepEq] at run
      cases r with
      | item item after => exact run
      | again after => exact ih (by omega) run

omit valid in
theorem step_of_loaded (running : walk.finished = false)
    (loaded : walk.block = some bytes) : step fs walk = step.stepBlock fs walk bytes := by
  unfold step
  rw [if_neg (by simp [running]), loaded]

theorem next_eq_of_step (ok : walk.Ok fs) (ok' : walk'.Ok fs)
    (same : step fs walk = step fs walk') : walk.next fs = walk'.next fs := by
  obtain ⟨item, after, run, -⟩ := next_ok valid ok
  obtain ⟨item', after', run', -⟩ := next_ok valid ok'
  have left := nextWithin_mono (Nat.le_max_left (walk.rounds fs) (walk'.rounds fs)) run
  have right := nextWithin_mono (Nat.le_max_right (walk.rounds fs) (walk'.rounds fs)) run'
  have pos : 0 < max (walk.rounds fs) (walk'.rounds fs) := by
    unfold rounds
    omega
  obtain ⟨k, rounds⟩ : ∃ k, max (walk.rounds fs) (walk'.rounds fs) = k + 1 :=
    ⟨_, (Nat.succ_pred_eq_of_pos pos).symm⟩
  have equal : nextWithin fs (k + 1) walk = nextWithin fs (k + 1) walk' := by
    unfold nextWithin
    rw [same]
  rw [rounds] at left right
  rw [run, run', ← left, ← right, equal]

theorem next_eq_of_again (ok : walk.Ok fs)
    (again : step fs walk = some (.again walk')) (ok' : walk'.Ok fs) :
    walk.next fs = walk'.next fs := by
  obtain ⟨item, after, run, -⟩ := next_ok valid ok
  obtain ⟨item', after', run', -⟩ := next_ok valid ok'
  have later : nextWithin fs (walk'.rounds fs + 1) walk = some (item', after') := by
    unfold nextWithin
    rw [again]
    exact run'
  have left := nextWithin_mono (Nat.le_max_left (walk.rounds fs) (walk'.rounds fs + 1)) run
  have right := nextWithin_mono (Nat.le_max_right (walk.rounds fs) (walk'.rounds fs + 1)) later
  rw [run, run', ← left, right]

theorem next_resumed (ok : walk.Of fs inode) (behind : walk.Behind fs e)
    (start : fs.directoryEntriesFrom inode e.nextOffset = .ok resumed)
    (resumedOk : resumed.Ok fs) : walk.next fs = resumed.next fs := by
  have sizePos : 0 < fs.blockSize := valid.wf.blockSize_pos
  obtain ⟨bytes, loaded, offsetLe⟩ := behind.loaded
  obtain ⟨before, length⟩ := ok.loaded bytes loaded
  have read := ok.read bytes loaded
  have indexLt : walk.blockIndex < walk.blockCount := by
    rw [ok.count, lt_divCeil_iff sizePos]
    exact before
  have small : walk.blockIndex + 1 < 2 ^ 32 := by
    have sizeGe : 1024 ≤ fs.blockSize := valid.wf.blockSize_ge
    have sizeLt := ok.size_lt
    have : walk.blockIndex * 1024 ≤ walk.blockIndex * fs.blockSize := Nat.mul_le_mul_left _ sizeGe
    omega
  have count : fs.blockSpan inode = walk.blockCount := by
    rw [ok.count, ok.inode_eq]
    rfl
  -- The new walk, by its fields.
  unfold Ext2.directoryEntriesFrom at start
  rw [Result.rejectIf_bind] at start
  split at start
  · cases start
  rw [div_of_ne (ne_of_gt sizePos), rem_of_ne (ne_of_gt sizePos)] at start
  simp only [Result.lift_some, Result.ok_bind, Result.pure_eq] at start
  obtain rfl := Result.ok.inj start
  rw [behind.next, count] at resumedOk ⊢
  by_cases atEnd : walk.offset = fs.blockSize
  · -- The entry ends its block: one more round of the old walk goes to the next block.
    have position : walk.blockIndex * fs.blockSize + walk.offset =
        fs.blockSize * (walk.blockIndex + 1) := by
      rw [atEnd, Nat.mul_succ, mul_comm]
    rw [position, Nat.mul_div_cancel_left _ sizePos, Nat.mul_mod_right, min_eq_left (by omega)]
      at resumedOk ⊢
    apply next_eq_of_again valid ok.toOk _ resumedOk
    rw [step_of_loaded behind.running loaded]
    unfold step.stepBlock
    rw [if_pos (by omega), add32_of_lt small, Option.map_some, ← ok.inode_eq]
    cases walk
    cases behind.running
    rfl
  · -- The new walk loads the block and stands where the old one does.
    have offsetLt : walk.offset < fs.blockSize := by omega
    rw [mul_comm, Nat.mul_add_div sizePos, Nat.div_eq_of_lt offsetLt, add_zero,
      Nat.mul_add_mod, Nat.mod_eq_of_lt offsetLt, min_eq_left (by omega)] at resumedOk ⊢
    apply next_eq_of_step valid ok.toOk resumedOk
    rw [step_of_loaded behind.running loaded]
    unfold step
    rw [if_neg Bool.false_ne_true]
    dsimp only
    rw [if_neg (not_le.mpr indexLt), read]
    dsimp only
    rw [← ok.inode_eq, ← behind.running, ← loaded]

theorem collectWithin_resumed (ok : walk.Of fs inode) (behind : walk.Behind fs e)
    (start : fs.directoryEntriesFrom inode e.nextOffset = .ok resumed)
    (resumedOk : resumed.Ok fs) (fuel : Nat) :
    collectWithin fs fuel walk = collectWithin fs fuel resumed := by
  cases fuel with
  | zero => rfl
  | succ fuel =>
    unfold collectWithin
    rw [next_resumed valid ok behind start resumedOk]

omit valid in
theorem collectWithin_mono (le : fuel ≤ more) (run : collectWithin fs fuel walk = some items) :
    collectWithin fs more walk = some items := by
  induction fuel generalizing walk more items with
  | zero => cases run
  | succ fuel ih =>
    obtain ⟨k, rfl⟩ : ∃ k, more = k + 1 := ⟨more - 1, by omega⟩
    unfold collectWithin
    obtain ⟨after, found, rfl⟩ | ⟨item, after, rest, found, restEq, rfl⟩ := collectWithin_cases run
    · rw [found]
    · rw [found]
      dsimp only
      rw [ih (Nat.le_of_succ_le_succ le) restEq]
      rfl

omit valid in
theorem collectWithin_unique {fuel' : Nat} (run : collectWithin fs fuel walk = some items)
    (run' : collectWithin fs fuel' walk = some items') : items = items' := by
  have left := collectWithin_mono (Nat.le_max_left fuel fuel') run
  have right := collectWithin_mono (Nat.le_max_right fuel fuel') run'
  exact Option.some.inj (left.symm.trans right)

omit valid in
theorem collectWithin_finished (finished : walk.finished = true)
    (run : collectWithin fs fuel walk = some items) :
    items = [] := by
  have none : walk.next fs = some (none, walk) := by
    unfold next rounds nextWithin step
    rw [if_pos finished]
  cases fuel with
  | zero => cases run
  | succ fuel =>
    unfold collectWithin at run
    rw [none] at run
    exact (Option.some.inj run).symm

theorem collectWithin_drop (fuel k : Nat) (ok : walk.Of fs inode)
    (run : collectWithin fs fuel walk = some items) (here : items[k]? = some (.ok e)) :
    ∃ fuel' after, after.Of fs inode ∧ after.Behind fs e ∧
      collectWithin fs fuel' after = some (items.drop (k + 1)) := by
  induction k generalizing walk fuel items with
  | zero =>
    cases fuel with
    | zero => cases run
    | succ fuel =>
      obtain ⟨after, found, rfl⟩ | ⟨item, after, rest, found, restEq, rfl⟩ :=
        collectWithin_cases run
      · cases here
      · obtain rfl := Option.some.inj here
        have kept := nextWithin_keeps valid _ ok found
        exact ⟨fuel, after, kept.1, kept.2, restEq⟩
  | succ k ih =>
    cases fuel with
    | zero => cases run
    | succ fuel =>
      obtain ⟨after, found, rfl⟩ | ⟨item, after, rest, found, restEq, rfl⟩ :=
        collectWithin_cases run
      · cases here
      · cases item with
        | ok entry =>
          have kept := nextWithin_keeps valid _ ok found
          exact ih fuel kept.1 restEq here
        | error failed =>
          -- Behind an error there is nothing.
          have ended := collectWithin_finished (nextWithin_stops valid _ ok found) restEq
          rw [List.getElem?_cons_succ, ended] at here
          cases here

end Accepted

end DirEntries

section Resume

variable {fs : Ext2} (valid : fs.Valid) {i : Inode} (walkable : i.Walkable)
include valid walkable

theorem Ext2.directoryEntriesFrom_of (dir : i.isDirectory = true) (start : Nat) :
    ∃ walk, fs.directoryEntriesFrom i start = .ok walk ∧ walk.Of fs i := by
  have sizePos : 0 < fs.blockSize := valid.wf.blockSize_pos
  have sat := directoryEntriesFrom_sat valid walkable start
  unfold Ext2.directoryEntriesFrom at sat ⊢
  rw [Result.rejectIf_bind, if_neg (by simp [dir]), div_of_ne (ne_of_gt sizePos),
    rem_of_ne (ne_of_gt sizePos)] at sat ⊢
  simp only [Result.lift_some, Result.ok_bind, Result.pure_eq, Result.sat_ok] at sat ⊢
  exact ⟨_, rfl, sat.1, rfl, by simp⟩

/-- What a fresh walk from `start` hands out. -/
def Ext2.WalksFrom (fs : Ext2) (i : Inode) (start : Nat)
    (items : List (Except Ext2Error DirEntry)) : Prop :=
  ∃ walk, fs.directoryEntriesFrom i start = .ok walk ∧ walk.Of fs i ∧ walk.collect fs = some items

theorem Ext2.walksFrom_of (dir : i.isDirectory = true) (start : Nat) :
    ∃ items, fs.WalksFrom i start items := by
  obtain ⟨walk, fresh, of⟩ := directoryEntriesFrom_of valid walkable dir start
  obtain ⟨items, run, -⟩ := DirEntries.collect_ok valid of.toOk
  exact ⟨items, walk, fresh, of, run⟩

omit valid walkable in
theorem Ext2.WalksFrom.unique
    (walks : fs.WalksFrom i start items) (walks' : fs.WalksFrom i start items') : items = items' := by
  obtain ⟨walk, fresh, -, run⟩ := walks
  obtain ⟨walk', fresh', -, run'⟩ := walks'
  rw [fresh] at fresh'
  obtain rfl := Result.ok.inj fresh'
  rw [run] at run'
  exact Option.some.inj run'

/-- A walk that starts at the position an entry has reported hands out what came behind that
entry: the same entries, and the same error or end. -/
theorem Ext2.WalksFrom.resumes (dir : i.isDirectory = true) (walks : fs.WalksFrom i start items)
    (here : items[k]? = some (.ok e)) : fs.WalksFrom i e.nextOffset (items.drop (k + 1)) := by
  obtain ⟨walk, -, of, run⟩ := walks
  obtain ⟨fuel', after, ok, behind, rest⟩ := DirEntries.collectWithin_drop valid _ k of run here
  obtain ⟨resumed, start, resumedOk⟩ := directoryEntriesFrom_of valid walkable dir e.nextOffset
  obtain ⟨items', all, -⟩ := DirEntries.collect_ok valid resumedOk.toOk
  rw [DirEntries.collectWithin_resumed valid ok behind start resumedOk.toOk] at rest
  refine ⟨resumed, start, resumedOk, ?_⟩
  rw [all, DirEntries.collectWithin_unique all rest]

omit walkable in
theorem Ext2.WalksFrom.entry
    (walks : fs.WalksFrom i start items) (here : items[k]? = some (.ok e)) :
    e.nextOffset ≤ i.size ∧ e.name.length ≤ 255 := by
  obtain ⟨walk, -, of, run⟩ := walks
  obtain ⟨fuel', after, ok, behind, -⟩ := DirEntries.collectWithin_drop valid _ k of run here
  obtain ⟨bytes, loaded, offset_le⟩ := behind.loaded
  have inside := ok.loaded bytes loaded
  rw [ok.inode_eq] at inside
  have position := behind.next
  exact ⟨by omega, behind.short⟩

end Resume

end Zaytos.Fs
