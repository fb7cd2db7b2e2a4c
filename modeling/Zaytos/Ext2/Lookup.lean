import Zaytos.Ext2.DirWalk
import Zaytos.Ext2.NameKeeps

set_option autoImplicit false

/-! What a lookup finds in a consistent image, and that a new file is found under its name while
every other name keeps its meaning. -/
namespace Zaytos.Fs

def namesIn (d : Bytes) (ps : List Nat) : List (List UInt8 × Nat) :=
  (ps.filter fun p => (recordAt d p).inode ≠ 0).map fun p => ((recordAt d p).name, (recordAt d p).inode)

theorem namesIn_append (d : Bytes) (l r : List Nat) :
    namesIn d (l ++ r) = namesIn d l ++ namesIn d r := by
  simp [namesIn]

theorem namesIn_cons {d : Bytes} {p : Nat} (used : (recordAt d p).inode ≠ 0) (rest : List Nat) :
    namesIn d (p :: rest) = ((recordAt d p).name, (recordAt d p).inode) :: namesIn d rest := by
  simp [namesIn, used]

theorem namesIn_congr {d d' : Bytes} {ps : List Nat}
    (same : ∀ p ∈ ps, recordAt d' p = recordAt d p) : namesIn d' ps = namesIn d ps := by
  unfold namesIn
  rw [List.filter_congr fun p mem => by rw [same p mem]]
  apply List.map_congr_left
  intro p mem
  rw [same p (List.mem_of_mem_filter mem)]

namespace Disk

variable (L : Layout) (m : Disk)

def names (dir : Nat) : List (List UInt8 × Nat) :=
  (List.range (m.fileBlocks L dir)).flatMap fun k => namesIn (m.block dir k) (m.recordsOf L dir k)

def child (dir : Nat) (name : List UInt8) : Option Nat :=
  ((m.names L dir).find? fun entry => entry.1 = name).map Prod.snd

variable {L m}

theorem names_eq {dir : Nat} : m.names L dir = (m.entries L dir).map fun e => (e.name, e.inode) := by
  simp only [names, entries, namesIn, entriesAt, List.map_flatMap, List.map_map]
  rfl

theorem child_eq {dir : Nat} {name : List UInt8} :
    m.child L dir name = ((m.entries L dir).find? fun e => e.name = name).map DirEntry.inode := by
  unfold child
  rw [names_eq, List.find?_map, Option.map_map]
  rfl

theorem mem_names {dir ino : Nat} {name : List UInt8} : (name, ino) ∈ m.names L dir ↔
    ∃ k p, k < m.fileBlocks L dir ∧ p ∈ m.recordsOf L dir k ∧ Named (m.block dir k) name p ∧
      (recordAt (m.block dir k) p).inode = ino := by
  simp only [names, namesIn, List.mem_flatMap, List.mem_range, List.mem_map, List.mem_filter,
    decide_eq_true_eq, Prod.mk.injEq, Named]
  constructor
  · rintro ⟨k, small, p, ⟨mem, used⟩, rfl, rfl⟩
    exact ⟨k, p, small, mem, ⟨used, rfl⟩, rfl⟩
  · rintro ⟨k, p, small, mem, ⟨used, rfl⟩, rfl⟩
    exact ⟨k, small, p, ⟨mem, used⟩, rfl, rfl⟩

theorem mem_of_child {dir ino : Nat} {name : List UInt8} (found : m.child L dir name = some ino) :
    (name, ino) ∈ m.names L dir := by
  obtain ⟨entry, first, rfl⟩ := Option.map_eq_some_iff.mp found
  have named : entry.1 = name := by simpa using List.find?_some first
  rw [← named]
  exact List.mem_of_find?_eq_some first

end Disk

theorem lookupAmong_eq {fs : Ext2} {name : List UInt8} {fuel : Nat} {walk : DirEntries}
    {entries : List DirEntry} (run : walk.collectWithin fs fuel = some (entries.map .ok)) :
    fs.lookupAmong name fuel walk = match entries.find? fun e => e.name = name with
      | some e => fs.inode e.inode
      | none => .err .notFound := by
  induction fuel generalizing walk entries with
  | zero => cases run
  | succ fuel ih =>
    unfold Ext2.lookupAmong
    obtain ⟨after, found, none⟩ | ⟨item, after, rest, found, restEq, cons⟩ :=
      DirEntries.collectWithin_cases run
    · obtain rfl := List.map_eq_nil_iff.mp none
      rw [found]
      rfl
    · rw [found]
      cases entries with
      | nil => cases cons
      | cons e entries =>
        obtain ⟨rfl, rfl⟩ := List.cons.inj cons
        dsimp only
        rw [List.find?_cons]
        by_cases named : e.name = name
        · rw [if_pos named]
          simp [named]
        · rw [if_neg named, ih restEq]
          simp [named]

section Resolve

variable {fs : Ext2} {current : Inode} {components : Nat} {pieces rest : List (List UInt8)}

def named (pieces : List (List UInt8)) : Nat := (pieces.filter (· ≠ [])).length

theorem resolve_cons {piece : List UInt8} (given : piece ≠ []) (components : Nat) :
    fs.resolve current components (piece :: rest) = (do
      let components ← add64 components 1
      Result.rejectIf (maxPathComponents < components) (.pathTooManyComponents maxPathComponents)
      let current ← fs.lookupIn current piece
      fs.resolve current components rest) := by
  rw [Ext2.resolve, if_neg given]

theorem resolve_cons_of_le {piece : List UInt8} (given : piece ≠ []) (few : components < 64) :
    fs.resolve current components (piece :: rest) =
      fs.lookupIn current piece >>= fun current => fs.resolve current (components + 1) rest := by
  rw [resolve_cons given, add64_of_lt (by omega), Result.lift_some, Result.ok_bind,
    Result.rejectIf_bind, if_neg (by simp only [maxPathComponents]; omega)]

theorem resolve_of_empty (none : ∀ piece ∈ pieces, piece = []) :
    fs.resolve current components pieces = .ok current := by
  induction pieces with
  | nil => rfl
  | cons piece pieces ih =>
    rw [Ext2.resolve, if_pos (none piece List.mem_cons_self)]
    exact ih fun x mem => none x (List.mem_cons_of_mem _ mem)

theorem resolve_cons_beyond {piece : List UInt8} (given : piece ≠ []) (few : components < 2 ^ 63)
    (many : 64 ≤ components) : fs.resolve current components (piece :: rest) =
      .err (.pathTooManyComponents 64) := by
  rw [resolve_cons given, add64_of_lt (by omega), Result.lift_some, Result.ok_bind,
    Result.rejectIf_bind, if_pos (by simp only [maxPathComponents]; omega)]

theorem resolve_append {i : Inode} (few : components ≤ 64)
    (run : fs.resolve current components pieces = .ok i) :
    components + named pieces ≤ 64 ∧ fs.resolve current components (pieces ++ rest) =
      fs.resolve i (components + named pieces) rest := by
  induction pieces generalizing current components with
  | nil =>
    obtain rfl := Result.ok.inj run
    exact ⟨few, rfl⟩
  | cons piece pieces ih =>
    by_cases given : piece = []
    · rw [Ext2.resolve, if_pos given] at run
      have later := ih few run
      have same : named (piece :: pieces) = named pieces := by simp [named, given]
      rw [List.cons_append, Ext2.resolve, if_pos given, same]
      exact later
    · have one : named (piece :: pieces) = named pieces + 1 := by simp [named, given]
      by_cases many : 64 ≤ components
      · rw [resolve_cons_beyond given (by omega) many] at run
        cases run
      · rw [resolve_cons_of_le given (Nat.lt_of_not_le many)] at run
        obtain ⟨next, found, run⟩ := Result.bind_eq_ok.mp run
        have later := ih (Nat.lt_of_not_le many) run
        rw [one, ← add_assoc, Nat.add_right_comm, List.cons_append,
          resolve_cons_of_le given (Nat.lt_of_not_le many), found]
        exact later

end Resolve

section Path

variable {fs : Ext2} {path parent name : List UInt8} {i : Inode}

theorem lookup_eq_ok : fs.lookup path = .ok i ↔ path.head? = some pathSeparator ∧
    (∃ root, fs.inode rootInode = .ok root ∧ fs.resolve root 0 (Ext2.splitPath path) = .ok i) ∧
    ¬ (path.getLast? = some pathSeparator ∧ (!i.isDirectory) = true) := by
  unfold Ext2.lookup
  rw [Result.rejectIf_bind_eq_ok, not_not, Result.bind_eq_ok]
  apply and_congr_right
  intro _
  constructor
  · rintro ⟨root, read, run⟩
    obtain ⟨current, resolved, run⟩ := Result.bind_eq_ok.mp run
    obtain ⟨fine, run⟩ := Result.rejectIf_bind_eq_ok.mp run
    obtain rfl := Result.ok.inj run
    exact ⟨⟨root, read, resolved⟩, fine⟩
  · rintro ⟨⟨root, read, resolved⟩, fine⟩
    exact ⟨root, read, Result.bind_eq_ok.mpr ⟨i, resolved, Result.rejectIf_bind_eq_ok.mpr ⟨fine, rfl⟩⟩⟩

theorem resolve_of_missing {root : Inode} (read : fs.inode rootInode = .ok root)
    (missing : fs.lookup path = .err .notFound) :
    fs.resolve root 0 (Ext2.splitPath path) = .err .notFound := by
  unfold Ext2.lookup at missing
  rw [Result.rejectIf_bind] at missing
  split at missing
  · cases missing
  rw [read, Result.ok_bind] at missing
  rcases Result.bind_eq_err.mp missing with stuck | ⟨current, -, refused⟩
  · exact stuck
  · rw [Result.rejectIf_bind] at refused
    split at refused
    · cases refused
    · cases refused

theorem isDirectory_of_resolve {current : Inode} {components : Nat} {pieces : List (List UInt8)}
    (run : fs.resolve current components pieces = .ok i) (dir : i.isDirectory = true) :
    current.isDirectory = true := by
  induction pieces generalizing current components with
  | nil =>
    obtain rfl := Result.ok.inj run
    exact dir
  | cons piece pieces ih =>
    by_cases given : piece = []
    · rw [Ext2.resolve, if_pos given] at run
      exact ih run
    · rw [resolve_cons given] at run
      obtain ⟨next, -, run⟩ := Result.bind_eq_ok.mp run
      obtain ⟨-, run⟩ := Result.rejectIf_bind_eq_ok.mp run
      obtain ⟨found, lookedUp, -⟩ := Result.bind_eq_ok.mp run
      unfold Ext2.lookupIn Ext2.directoryEntries Ext2.directoryEntriesFrom at lookedUp
      obtain ⟨walk, fresh, -⟩ := Result.bind_eq_ok.mp lookedUp
      simpa using (Result.rejectIf_bind_eq_ok.mp fresh).1

/-- The directory part of a path with one `/` too few. -/
def parentPath (parent : List UInt8) : List UInt8 := if parent = [] then [pathSeparator] else parent

theorem exists_last_separator (mem : pathSeparator ∈ path) :
    ∃ parent name, path = parent ++ pathSeparator :: name ∧ pathSeparator ∉ name := by
  obtain ⟨l, r, split, first⟩ := List.eq_append_cons_of_mem (List.mem_reverse.mpr mem)
  refine ⟨r.reverse, l.reverse, ?_, by simpa using first⟩
  rw [← List.reverse_reverse path, split]
  simp

theorem splitPath_append (plain : pathSeparator ∉ name) :
    Ext2.splitPath (parent ++ pathSeparator :: name) = Ext2.splitPath parent ++ [name] := by
  have whole : name.splitOnP (fun x => x == pathSeparator) = [name] := by
    apply List.splitOnP_eq_singleton
    intro x mem
    rw [beq_eq_false_iff_ne]
    rintro rfl
    exact plain mem
  unfold Ext2.splitPath List.splitOn
  rw [List.splitOnP_append_cons _ _ (by simp), whole]

theorem resolve_parentPath {current : Inode} {components : Nat} :
    fs.resolve current components (Ext2.splitPath (parentPath parent)) =
      fs.resolve current components (Ext2.splitPath parent) := by
  unfold parentPath
  by_cases empty : parent = []
  · subst empty
    rfl
  · rw [if_neg empty]

end Path

section Lookup

variable {G : Geometry} {base image : Bytes} {m : Disk} {fs : Ext2} {dir : Nat}
  (shows : G.Shows base image m) (con : Consistent G m) (parsed : Ext2.parse image = .ok fs)
  (layout : fs.layout = G.layout)

include con in
theorem Consistent.child_live {name : List UInt8} {ino : Nat} (has : G.layout.HasInode dir)
    (isDir : m.IsDir dir) (found : m.child G.layout dir name = some ino) : m.Live G.layout ino := by
  obtain ⟨k, p, small, mem, named, rfl⟩ := Disk.mem_names.mp (Disk.mem_of_child found)
  exact (con.dirBlock dir has isDir k small).live p mem named.1

include shows con parsed layout

theorem Consistent.lookupIn (name : List UInt8) (has : G.layout.HasInode dir) (isDir : m.IsDir dir) :
    fs.lookupIn (G.inodeIn image dir) name = match m.child G.layout dir name with
      | some ino => .ok (G.inodeIn image ino)
      | none => .err .notFound := by
  obtain ⟨walk, fresh, -, run⟩ := con.walk shows parsed layout has isDir
  unfold Ext2.lookupIn Ext2.directoryEntries
  rw [fresh, Result.ok_bind, lookupAmong_eq run]
  cases found : m.child G.layout dir name with
  | none =>
    rw [Disk.child_eq, Option.map_eq_none_iff] at found
    rw [found]
  | some ino =>
    have live := con.child_live has isDir found
    rw [Disk.child_eq] at found
    obtain ⟨e, first, rfl⟩ := Option.map_eq_some_iff.mp found
    rw [first]
    exact con.inode shows parsed layout live

omit con in
theorem root_eq {root : Inode} (read : fs.inode rootInode = .ok root) :
    G.layout.HasInode rootInode ∧ root = G.inodeIn image rootInode := by
  obtain ⟨valid, same⟩ := parse_valid parsed
  obtain ⟨readable, rfl⟩ := (inode_eq_ok valid).mp read
  have has : G.layout.HasInode rootInode := by
    rw [← layout]
    exact ⟨readable.pos, readable.le, readable.group_lt⟩
  rw [layout, same, shows.inodePos has]
  exact ⟨has, rfl⟩

omit con parsed layout in
theorem lookupIn_of_not_dir {name : List UInt8} (has : G.layout.HasInode dir) (not : ¬ m.IsDir dir) :
    fs.lookupIn (G.inodeIn image dir) name = .err (.notADirectory dir) := by
  have file : (G.inodeIn image dir).isDirectory = false := by
    rw [Bool.eq_false_iff, Ne, isDirectory_iff shows has]
    exact not
  unfold Ext2.lookupIn Ext2.directoryEntries Ext2.directoryEntriesFrom
  rw [Result.rejectIf_bind, if_pos (by rw [file]; rfl)]
  rfl

theorem Consistent.lookupIn_ok {name : List UInt8} {i : Inode} (has : G.layout.HasInode dir)
    (run : fs.lookupIn (G.inodeIn image dir) name = .ok i) :
    m.IsDir dir ∧ ∃ ino, m.child G.layout dir name = some ino ∧ i = G.inodeIn image ino := by
  by_cases isDir : m.IsDir dir
  · refine ⟨isDir, ?_⟩
    rw [con.lookupIn shows parsed layout _ has isDir] at run
    cases found : m.child G.layout dir name with
    | none =>
      rw [found] at run
      cases run
    | some ino =>
      rw [found] at run
      exact ⟨ino, rfl, (Result.ok.inj run).symm⟩
  · rw [lookupIn_of_not_dir shows has isDir] at run
    cases run

theorem Consistent.resolve_live {pieces : List (List UInt8)} {components : Nat} {i : Inode}
    (has : G.layout.HasInode dir) (run : fs.resolve (G.inodeIn image dir) components pieces = .ok i) :
    ∃ ino, G.layout.HasInode ino ∧ i = G.inodeIn image ino ∧
      (m.Live G.layout ino ∨ ∀ piece ∈ pieces, piece = []) := by
  induction pieces generalizing dir components with
  | nil => exact ⟨dir, has, (Result.ok.inj run).symm, .inr (by simp)⟩
  | cons piece pieces ih =>
    by_cases given : piece = []
    · rw [Ext2.resolve, if_pos given] at run
      obtain ⟨ino, hasIno, there, reached⟩ := ih has run
      exact ⟨ino, hasIno, there, reached.imp_right fun none => by simpa [given] using none⟩
    · rw [resolve_cons given] at run
      obtain ⟨next, -, run⟩ := Result.bind_eq_ok.mp run
      obtain ⟨-, run⟩ := Result.rejectIf_bind_eq_ok.mp run
      obtain ⟨current, found, run⟩ := Result.bind_eq_ok.mp run
      obtain ⟨isDir, x, child, rfl⟩ := con.lookupIn_ok shows parsed layout has found
      have live := con.child_live has isDir child
      obtain ⟨ino, hasIno, there, reached⟩ := ih live.1 run
      refine ⟨ino, hasIno, there, .inl ?_⟩
      cases reached with
      | inl live => exact live
      | inr none =>
        have ends : i = G.inodeIn image x := by
          rw [resolve_of_empty none] at run
          exact (Result.ok.inj run).symm
        rw [there] at ends
        have same : ino = x := congrArg Inode.number ends
        rw [same]
        exact live

theorem Consistent.lookup_live {path : List UInt8} {i : Inode} (found : fs.lookup path = .ok i)
    (notDir : i.isDirectory = false) :
    ∃ ino, i = G.inodeIn image ino ∧ m.Live G.layout ino := by
  obtain ⟨head, ⟨root, read, resolved⟩, ends⟩ := lookup_eq_ok.mp found
  obtain ⟨has, rfl⟩ := root_eq shows parsed layout read
  obtain ⟨ino, -, there, reached⟩ := con.resolve_live shows parsed layout has resolved
  refine ⟨ino, there, reached.resolve_right fun none => ends ?_⟩
  obtain ⟨parent, name, rfl, plain⟩ :=
    exists_last_separator (List.mem_of_mem_head? (Option.mem_def.mpr head))
  rw [splitPath_append plain] at none
  have last : name = [] := none name (List.mem_append_right _ (List.mem_singleton_self _))
  exact ⟨by rw [last, List.getLast?_concat], by rw [notDir]; rfl⟩

end Lookup

section AddFile

variable {G : Geometry} {m : Disk} {dir ino k p : Nat} {name : List UInt8} {fileType : UInt8}

theorem flatMap_range_insert {α : Type} {f g : Nat → List α} {n j : Nat} {a : α} {l r : List α}
    (small : j < n) (others : ∀ i < n, i ≠ j → g i = f i) (before : f j = l ++ r)
    (after : g j = l ++ a :: r) :
    ∃ l' r', (List.range n).flatMap f = l' ++ r' ∧ (List.range n).flatMap g = l' ++ a :: r' := by
  obtain ⟨s, t, split⟩ := List.mem_iff_append.mp (List.mem_range.mpr small)
  have nodup : (s ++ j :: t).Nodup := split ▸ List.nodup_range
  obtain ⟨notAfter, left⟩ := (List.nodup_cons.mp (List.nodup_middle.mp nodup))
  have same : ∀ l' ⊆ s ++ t, l'.flatMap g = l'.flatMap f := by
    intro l' within
    apply List.flatMap_congr
    intro i mem
    have inside := within mem
    apply others i
    · apply List.mem_range.mp
      rw [split]
      exact List.perm_middle.symm.subset (List.mem_cons_of_mem _ inside)
    · intro same
      exact notAfter (same ▸ inside)
  refine ⟨s.flatMap f ++ l, r ++ t.flatMap f, ?_, ?_⟩
  · rw [split, List.flatMap_append, List.flatMap_cons, before]
    simp
  · rw [split, List.flatMap_append, List.flatMap_cons, after, same s (List.subset_append_left _ _),
      same t (List.subset_append_right _ _)]
    simp

variable (con : Consistent G m) (free : m.Open G.layout ino) (admits : Admits G m dir name)
  (room : Room G m dir name k p)

theorem addFile_fileBlocks {b i : Nat} (ne : i ≠ ino) :
    (m.addFile G.layout ino b p name fileType).fileBlocks G.layout i = m.fileBlocks G.layout i := by
  unfold Disk.fileBlocks Disk.size
  rw [addFile_inode, if_neg ne]

include con free admits room in
theorem addFile_block_other {i j : Nat} (isDir : m.IsDir i) (has : G.layout.HasInode i)
    (small : j < m.fileBlocks G.layout i) (ne : (i, j) ≠ (dir, k)) :
    (m.addFile G.layout ino (m.slot dir k) p name fileType).block i j = m.block i j := by
  have live := con.dirLive i has isDir
  have few := (con.shape i live (.inr isDir)).blocks_le
  have slots : j < inodeBlockCount := lt_of_lt_of_le small (le_trans few (by decide))
  have notNew : i ≠ ino := con.ne_of_open has isDir free
  unfold Disk.block
  rw [addFile_slot slots, if_neg notNew]
  exact addFile_block con admits room live slots (con.dirData has isDir small).1 ne

include con free admits room in
theorem addFile_block_here (fileType : UInt8) :
    (m.addFile G.layout ino (m.slot dir k) p name fileType).block dir k = insertAt (m.block dir k) p
      (direntSpan (recordAt (m.block dir k) p).nameLen) ino name fileType := by
  have few := (con.shape dir (con.dirLive dir admits.has admits.isDir) (.inr admits.isDir)).blocks_le
  have slots : k < inodeBlockCount :=
    lt_of_lt_of_le room.record.block_lt (le_trans few (by decide))
  unfold Disk.block
  rw [addFile_slot slots, if_neg (con.ne_of_open admits.has admits.isDir free), addFile_data,
    if_pos rfl]

include con free admits room in
theorem addFile_names_other {i : Nat} (isDir : m.IsDir i) (has : G.layout.HasInode i)
    (ne : i ≠ dir) : (m.addFile G.layout ino (m.slot dir k) p name fileType).names G.layout i =
      m.names G.layout i := by
  unfold Disk.names
  rw [addFile_fileBlocks (con.ne_of_open has isDir free)]
  apply List.flatMap_congr
  intro j mem
  unfold Disk.recordsOf
  rw [addFile_block_other con free admits room isDir has (List.mem_range.mp mem) (by simp [ne])]

include con free admits room in
theorem addFile_names : ∃ l r, m.names G.layout dir = l ++ r ∧
    (m.addFile G.layout ino (m.slot dir k) p name fileType).names G.layout dir =
      l ++ (name, ino) :: r := by
  have inoLt : ino < 2 ^ 32 := lt_of_le_of_lt free.has.le G.wf.inodesCount_lt
  have inoPos := free.has.pos
  have here := addFile_block_here con free admits room fileType
  obtain ⟨l, r, chain, split, chain', old, new, others⟩ := insert_chain fileType con admits room inoLt
  have used := room.roomy.1
  unfold Disk.names
  rw [addFile_fileBlocks (con.ne_of_open admits.has admits.isDir free)]
  apply flatMap_range_insert (l := namesIn (m.block dir k) l ++
    [((recordAt (m.block dir k) p).name, (recordAt (m.block dir k) p).inode)])
    (r := namesIn (m.block dir k) r) room.record.block_lt
  · intro j small ne
    unfold Disk.recordsOf
    rw [addFile_block_other con free admits room admits.isDir admits.has small (by simp [ne])]
  · rw [split, namesIn_append, namesIn_cons used]
    simp
  · unfold Disk.recordsOf
    rw [here, chain'.positions_eq, namesIn_append, namesIn_cons (by rw [old]; exact used),
      namesIn_cons (by rw [new]; exact ne_of_gt inoPos), old, new,
      namesIn_congr fun x mem => others x (.inl mem), namesIn_congr fun x mem => others x (.inr mem)]
    simp

include con free admits room in
theorem addFile_child {i : Nat} (isDir : m.IsDir i) (has : G.layout.HasInode i) (n : List UInt8) :
    (m.addFile G.layout ino (m.slot dir k) p name fileType).child G.layout i n =
      if i = dir ∧ n = name then some ino else m.child G.layout i n := by
  unfold Disk.child
  by_cases here : i = dir
  · subst here
    obtain ⟨l, r, before, after⟩ := addFile_names con free admits room
    rw [before, after]
    by_cases new : n = name
    · subst new
      have absent : l.find? (fun entry => entry.1 = n) = none := by
        rw [List.find?_eq_none]
        intro entry mem
        rw [decide_eq_true_eq]
        intro named
        have inNames : (n, entry.2) ∈ m.names G.layout i := by
          rw [before, ← named]
          exact List.mem_append_left _ mem
        obtain ⟨k', p', small, record, taken, -⟩ := Disk.mem_names.mp inNames
        exact admits.fresh k' p' ⟨small, record⟩ taken
      simp [List.find?_append, absent]
    · simp [List.find?_append, Ne.symm new, new]
  · rw [addFile_names_other con free admits room isDir has here, if_neg fun both => here both.1]

theorem Admits.child_eq_none (admits : Admits G m dir name) : m.child G.layout dir name = none := by
  cases found : m.child G.layout dir name with
  | none => rfl
  | some ino =>
    obtain ⟨k, p, small, mem, named, -⟩ := Disk.mem_names.mp (Disk.mem_of_child found)
    exact absurd named (admits.fresh k p ⟨small, mem⟩)

variable {base image image' : Bytes} {fs fs' : Ext2} (shows : G.Shows base image m)
  (shows' : G.Shows base image' (m.addFile G.layout ino (m.slot dir k) p name fileType))
  (parsed : Ext2.parse image = .ok fs) (layout : fs.layout = G.layout)
  (parsed' : Ext2.parse image' = .ok fs') (layout' : fs'.layout = G.layout)

include con free admits room shows shows' parsed layout parsed' layout' in
theorem resolve_addFile {pieces : List (List UInt8)} {c components : Nat} {i : Inode}
    (has : G.layout.HasInode c)
    (run : fs.resolve (G.inodeIn image c) components pieces = .ok i) :
    ∃ t, G.layout.HasInode t ∧ i = G.inodeIn image t ∧
      fs'.resolve (G.inodeIn image' c) components pieces = .ok (G.inodeIn image' t) := by
  induction pieces generalizing c components with
  | nil => exact ⟨c, has, (Result.ok.inj run).symm, rfl⟩
  | cons piece pieces ih =>
    by_cases given : piece = []
    · rw [Ext2.resolve, if_pos given] at run ⊢
      exact ih has run
    · rw [resolve_cons given] at run ⊢
      obtain ⟨next, counted, run⟩ := Result.bind_eq_ok.mp run
      obtain ⟨few, run⟩ := Result.rejectIf_bind_eq_ok.mp run
      obtain ⟨current, found, run⟩ := Result.bind_eq_ok.mp run
      obtain ⟨isDir, x, child, rfl⟩ := con.lookupIn_ok shows parsed layout has found
      have notNew : c ≠ ino := con.ne_of_open has isDir free
      have isDir' : (m.addFile G.layout ino (m.slot dir k) p name fileType).IsDir c := by
        unfold Disk.IsDir
        rw [addFile_mode notNew]
        exact isDir
      have same : ¬ (c = dir ∧ piece = name) := by
        rintro ⟨rfl, rfl⟩
        rw [admits.child_eq_none] at child
        cases child
      obtain ⟨t, hasT, there, run'⟩ := ih (con.child_live has isDir child).1 run
      refine ⟨t, hasT, there, ?_⟩
      rw [counted, Result.ok_bind, Result.rejectIf_bind, if_neg few,
        (addFile_consistent fileType con free admits room).lookupIn shows' parsed' layout' _ has isDir',
        addFile_child con free admits room isDir has, if_neg same, child]
      exact run'

include con free admits room shows shows' parsed layout parsed' layout' in
theorem lookup_addFile {parent : List UInt8} {d : Inode} (plain : pathSeparator ∉ name)
    (found : fs.lookup (parentPath parent) = .ok d) (isDirectory : d.isDirectory = true)
    (number : d.number = dir)
    (missing : fs.lookup (parent ++ pathSeparator :: name) = .err .notFound) :
    fs'.lookup (parent ++ pathSeparator :: name) = .ok (G.inodeIn image' ino) := by
  obtain ⟨head, ⟨root, read, resolved⟩, -⟩ := lookup_eq_ok.mp found
  rw [resolve_parentPath] at resolved
  have given : name ≠ [] := (legal_length admits.legal).1
  have con' := addFile_consistent fileType con free admits room
  -- The root is a directory in both images.
  obtain ⟨has, rfl⟩ := root_eq shows parsed layout read
  have rootDir := (isDirectory_iff shows has).mp (isDirectory_of_resolve resolved isDirectory)
  have rootLive := con.dirLive rootInode has rootDir
  have read' := con'.inode shows' parsed' layout' ((addFile_live free.has).mpr (.inr rootLive))
  obtain ⟨t, -, rfl, resolved'⟩ :=
    resolve_addFile con free admits room shows shows' parsed layout parsed' layout' has resolved
  obtain rfl : t = dir := number
  -- The last name is not one too many, since the first lookup has not found it.
  obtain ⟨few, split⟩ := resolve_append (Nat.zero_le 64) resolved
  have less : 0 + named (Ext2.splitPath parent) < 64 := by
    by_contra many
    have stuck := resolve_of_missing read missing
    rw [splitPath_append plain, split, resolve_cons_beyond given
      (lt_of_le_of_lt few (by decide)) (Nat.le_of_not_lt many)] at stuck
    cases stuck
  have isDir' : (m.addFile G.layout ino (m.slot t k) p name fileType).IsDir t := by
    unfold Disk.IsDir
    rw [addFile_mode (con.ne_of_open admits.has admits.isDir free)]
    exact admits.isDir
  have last := con'.lookupIn shows' parsed' layout' name admits.has isDir'
  rw [addFile_child con free admits room admits.isDir admits.has, if_pos ⟨rfl, rfl⟩] at last
  apply lookup_eq_ok.mpr
  refine ⟨?_, ⟨_, read', ?_⟩, ?_⟩
  · unfold parentPath at head
    cases parent with
    | nil => rfl
    | cons x rest => simpa using head
  · rw [splitPath_append plain, (resolve_append (Nat.zero_le 64) resolved').2,
      resolve_cons_of_le given less, last]
    rfl
  · rintro ⟨ends, -⟩
    rw [List.getLast?_append_cons, List.getLast?_cons_of_ne_nil given] at ends
    exact plain (List.mem_of_getLast? ends)

end AddFile

end Zaytos.Fs
