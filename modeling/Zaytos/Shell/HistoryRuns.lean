import Zaytos.Shell.HistoryKeys

set_option autoImplicit false

/-! What becomes of the lines that the shell remembers from one shell to the next. -/
namespace Zaytos.Shell

open Recent (asked_of_mem_kept kept kept_drop_kept newest newest_drop)
open Terminated (linesOf)

variable {s t : Shell}

structure Reads (file : List UInt8) (chunks : List (List UInt8)) : Prop where
  whole : chunks.flatten = file
  some : ∀ chunk ∈ chunks, chunk ≠ []
  few : ∀ chunk ∈ chunks, chunk.length ≤ historyChunk

def newestOf (file : List UInt8) : List (List UInt8) :=
  newest historyMax (kept fits (linesOf newline file))

def LoadsLines (chunks : List (List UInt8)) (lines : List (List UInt8)) : Prop :=
  ∀ fresh : Shell, fresh.Unused →
    ∃ t notices, fresh.loadHistory (some (chunks.map some)) = some (t, notices) ∧
      t.Remembers lines

theorem Remembers.unique {first second : List (List UInt8)} (one : s.Remembers first)
    (two : s.Remembers second) : first = second :=
  List.ext_getElem? fun k => (one.2 k).symm.trans (two.2 k)

theorem loadsLines_readPart (chunks : List (List UInt8)) :
    LoadsLines chunks (newestOf (Loading.readPart 0 chunks)) := by
  intro fresh unused
  obtain ⟨t, notices, run, keeps⟩ := unused.loadHistory chunks
  exact ⟨t, notices, run, keeps.remembers⟩

theorem newShell_unused : Session.newShell.Unused := ⟨Session.newShell_fresh.sized, rfl⟩

/-! A file that is too long. -/

theorem readPart_enough {readTotal : Nat} (enough : historyReadMax ≤ readTotal)
    (chunks : List (List UInt8)) : Loading.readPart readTotal chunks = [] := by
  cases chunks with
  | nil => rfl
  | cons chunk rest => exact if_pos enough

theorem readPart_newlines (rest : List (List UInt8)) (k readTotal : Nat)
    (enough : readTotal + k * 256 = 8192) :
    Loading.readPart readTotal
        (List.replicate k (List.replicate historyChunk newline) ++ rest) =
      List.replicate (k * 256) newline := by
  have most : historyReadMax = 8192 := rfl
  induction k generalizing readTotal with
  | zero =>
    rw [List.replicate_zero, List.nil_append, readPart_enough (by omega), zero_mul]
    rfl
  | succ k ih =>
    have chunk : (List.replicate historyChunk newline).length = 256 := List.length_replicate
    rw [List.replicate_succ, List.cons_append, Loading.readPart, if_neg (by omega),
      ih _ (by omega), List.replicate_append_replicate, Nat.succ_mul, add_comm]

theorem linesOf_newlines (m : Nat) (last : List UInt8) :
    linesOf newline (List.replicate m newline ++ last) =
      List.replicate m [] ++ linesOf newline last := by
  have text : Terminated.text newline (List.replicate m []) = List.replicate m newline := by
    induction m with
    | zero => rfl
    | succ m ih =>
      rw [List.replicate_succ, List.replicate_succ, Terminated.text_cons, ih]
      rfl
  rw [← text]
  apply Terminated.linesOf_text_append
  intro line mem
  rw [List.eq_of_mem_replicate mem]
  exact List.not_mem_nil

theorem newestOf_newlines (m : Nat) (last : List UInt8) :
    newestOf (List.replicate m newline ++ last) = newestOf last := by
  have blank : (List.replicate m ([] : List UInt8)).filter fits = [] := by
    rw [List.filter_eq_nil_iff]
    intro line mem
    rw [List.eq_of_mem_replicate mem]
    exact Bool.false_ne_true
  rw [newestOf, linesOf_newlines, kept, List.filter_append, blank]
  rfl

theorem not_loads_long {n : Nat} (long : 8192 < n) :
    ∃ file chunks, file.length = n ∧ Reads file chunks ∧ ¬ LoadsLines chunks (newestOf file) := by
  have rest : (List.replicate (n - 8193) newline ++ [0x61]).length = n - 8192 := by
    rw [List.length_append, List.length_replicate, List.length_singleton]
    omega
  refine ⟨List.replicate 8192 newline ++ (List.replicate (n - 8193) newline ++ [0x61]),
    List.replicate 32 (List.replicate historyChunk newline) ++
      (List.replicate (n - 8193) newline ++ [0x61]).map (fun byte => [byte]), ?_, ?_, ?_⟩
  · rw [List.length_append, rest, List.length_replicate]
    omega
  · constructor
    · rw [List.flatten_append, List.flatten_replicate_replicate, ← List.flatMap_def,
        List.flatMap_singleton', show 32 * historyChunk = 8192 from rfl]
    · intro chunk mem
      rcases List.mem_append.mp mem with first | last
      · rw [List.eq_of_mem_replicate first]
        exact List.cons_ne_nil _ _
      · obtain ⟨byte, -, eq⟩ := List.mem_map.mp last
        rw [← eq]
        exact List.cons_ne_nil _ _
    · intro chunk mem
      rcases List.mem_append.mp mem with first | last
      · rw [List.eq_of_mem_replicate first, List.length_replicate]
      · obtain ⟨byte, -, eq⟩ := List.mem_map.mp last
        rw [← eq]
        exact (by decide : 1 ≤ 256)
  · intro loads
    obtain ⟨t, notices, run, there⟩ := loads _ newShell_unused
    obtain ⟨u, notices', run', part⟩ := loadsLines_readPart _ _ newShell_unused
    cases run.symm.trans run'
    have same := there.unique part
    rw [readPart_newlines _ 32 0 rfl, ← List.append_assoc, List.replicate_append_replicate,
      newestOf_newlines, ← List.append_nil (List.replicate (32 * 256) newline),
      newestOf_newlines] at same
    revert same
    decide

theorem loadsLines_short {file : List UInt8} {chunks : List (List UInt8)}
    (reads : Reads file chunks) (short : file.length ≤ historyReadMax) : LoadsLines chunks (newestOf file) := by
  have whole : Loading.readPart 0 chunks = file := by
    rw [Loading.readPart_all reads.some, reads.whole]
    rw [reads.whole, zero_add]
    exact short
  have loads := loadsLines_readPart chunks
  rw [whole] at loads
  exact loads

theorem loadsLines_iff (file : List UInt8) (chunks : List (List UInt8)) :
    LoadsLines chunks (newestOf file) ↔
      newestOf (Loading.readPart 0 chunks) = newestOf file := by
  constructor
  · intro loads
    obtain ⟨t, notices, run, there⟩ := loads _ newShell_unused
    obtain ⟨u, notices', run', part⟩ := loadsLines_readPart chunks _ newShell_unused
    cases run.symm.trans run'
    exact part.unique there
  · intro same
    rw [← same]
    exact loadsLines_readPart chunks

/-- The lines of an editor: no newline, and no more bytes than the buffer has. -/
def OfEditor (lines : List (List UInt8)) : Prop :=
  ∀ line ∈ lines, newline ∉ line ∧ line.length ≤ lineMax

def nonempty (line : List UInt8) : Bool := !line.isEmpty

/-- `history_at` finds the same lines. -/
def SameHistory (s t : Shell) : Prop :=
  ∀ back, (s.historyAt back).map Remembered.text = (t.historyAt back).map Remembered.text

variable {lines : List (List UInt8)}

theorem Remembers.same (one : s.Remembers lines) (two : t.Remembers lines) : s.SameHistory t := by
  intro back
  cases back with
  | zero => rw [one.1, two.1]
  | succ k => exact (one.2 k).trans (two.2 k).symm

theorem Unused.rememberAll (unused : s.Unused) (short : ∀ line ∈ lines, line.length ≤ lineMax) :
    ∃ t, s.rememberAll lines = some t ∧ t.Keeps (kept nonempty lines) := by
  have none : s.Keeps (kept nonempty []) := unused.keeps
  exact none.rememberAll short fun _ _ => rfl

theorem length_text_le (short : ∀ line ∈ lines, line.length ≤ lineMax) :
    (Terminated.text newline lines).length ≤ lines.length * (lineMax + 1) := by
  induction lines with
  | nil => exact Nat.zero_le _
  | cons line lines ih =>
    simp only [List.forall_mem_cons] at short
    have rest := ih short.2
    rw [Terminated.text_cons, List.length_append, List.length_cons, List.length_cons, Nat.succ_mul]
    omega

theorem Keeps.saved (keeps : s.Keeps (kept nonempty lines)) (ofEditor : OfEditor lines) :
    ∃ file, s.saveHistory = some file ∧ ∀ chunks, Reads file chunks → ∀ fresh : Shell,
      fresh.Unused → ∃ t notices, fresh.loadHistory (some (chunks.map some)) = some (t, notices) ∧
        t.SameHistory s := by
  have saved := keeps.saveHistory
  have ring : historyMax = 16 := rfl
  have few :
      ((kept nonempty lines).drop ((kept nonempty lines).length - historyMax)).length ≤ 16 := by
    rw [List.length_drop]
    omega
  have again := @kept_drop_kept _ _ nonempty lines
    ((kept nonempty lines).length - historyMax)
  have last := newest_drop historyMax (kept nonempty lines)
  have part : ∀ line ∈ (kept nonempty lines).drop ((kept nonempty lines).length - historyMax),
      newline ∉ line ∧ line.length ≤ lineMax := by
    intro line mem
    exact ofEditor line (asked_of_mem_kept (List.mem_of_mem_drop mem)).2
  generalize (kept nonempty lines).drop ((kept nonempty lines).length - historyMax) = slots
    at saved few again last part
  have bound := length_text_le fun line mem => (part line mem).2
  have size : slots.length * 129 ≤ 16 * 129 := Nat.mul_le_mul_right _ few
  refine ⟨Terminated.text newline slots, saved, ?_⟩
  intro chunks reads fresh unused
  obtain ⟨t, notices, run, there⟩ :=
    loadsLines_short reads (le_trans bound (le_trans size (by decide))) fresh unused
  refine ⟨t, notices, run, ?_⟩
  apply there.same
  have same : slots.filter fits = slots.filter nonempty := by
    apply List.filter_congr
    intro line mem
    exact Loading.fits_of_le (part line mem).2
  have lines' : linesOf newline (Terminated.text newline slots) = slots := by
    have split := Terminated.linesOf_text_append (fun line mem => (part line mem).1) []
    rw [List.append_nil] at split
    exact split.trans (List.append_nil slots)
  rw [newestOf, lines', kept, same]
  rw [kept] at again
  rw [again, last]
  exact keeps.remembers

/-- The history finds the newest lines, survives in its file, and gives back the line that was being
typed; but of a file with more bytes than are read it keeps the newest only if no later line
matters. -/
theorem history_lasts (s t : Shell) (lines : List (List UInt8)) (file : List UInt8)
    (chunks : List (List UInt8)) (n : Nat) (bytes written : List UInt8) (back forth : Nat) :
    (s.Unused → (∀ line ∈ lines, line.length ≤ lineMax) →
      ∃ u, s.rememberAll lines = some u ∧
        u.Remembers (newest historyMax (kept nonempty lines))) ∧
    (s.Unused → OfEditor lines → s.rememberAll lines = some t →
      ∃ saved, t.saveHistory = some saved ∧ ∀ parts, Reads saved parts → ∀ fresh : Shell,
        fresh.Unused → ∃ u notices,
          fresh.loadHistory (some (parts.map some)) = some (u, notices) ∧ u.SameHistory t) ∧
    (Reads file chunks → (LoadsLines chunks (newestOf file) ↔
      newestOf (Loading.readPart 0 chunks) = newestOf file)) ∧
    ((∀ sized parts, sized.length = n → Reads sized parts →
      LoadsLines parts (newestOf sized)) ↔ n ≤ historyReadMax) ∧
    (s.Fresh → s.feedAll bytes = some (t, written) →
      ∃ u shown, t.feedAll (List.replicate back ctrlP ++ List.replicate forth ctrlN) =
          some (u, shown) ∧
        u.historyBack = min (t.historyBack + back) t.held - forth ∧
        (u.historyBack = 0 → u.line.take u.length = t.typed)) := by
  refine ⟨?_, ?_, ?_, ?_, ?_⟩
  · intro unused short
    obtain ⟨u, run, keeps⟩ := unused.rememberAll short
    exact ⟨u, run, keeps.remembers⟩
  · intro unused ofEditor run
    obtain ⟨u, run', keeps⟩ := unused.rememberAll fun line mem => (ofEditor line mem).2
    cases run.symm.trans run'
    exact keeps.saved ofEditor
  · intro _
    exact loadsLines_iff file chunks
  · constructor
    · intro every
      by_contra long
      obtain ⟨sized, parts, length, reads, lost⟩ := not_loads_long (Nat.lt_of_not_le long)
      exact lost (every sized parts length reads)
    · intro short sized parts length reads
      exact loadsLines_short reads (length ▸ short)
  · intro fresh run
    exact (fresh.ready.feedAll run).back_forth back forth

open Session in
/-- Four lines of which two are left out, and a file in two pieces. -/
theorem history_lasts_two :
    (∃ t, newShell.rememberAll [[0x61], [0x61], [], [0x62]] = some t ∧
      t.Remembers [[0x62], [0x61]]) ∧
    LoadsLines [[0x61, newline], [0x62]] [[0x62], [0x61]] := by
  obtain ⟨remembered, -, loaded, -⟩ := history_lasts newShell newShell
    [[0x61], [0x61], [], [0x62]] [0x61, newline, 0x62] [[0x61, newline], [0x62]] 0 [] [] 0 0
  constructor
  · exact remembered newShell_unused (by decide)
  · exact (loaded ⟨rfl, by decide, by decide⟩).mpr (by decide)

/-- The newest line of a long file is not among those that are loaded. -/
theorem long_file_forgets :
    ¬ ∀ file chunks, Reads file chunks → LoadsLines chunks (newestOf file) := by
  intro claim
  obtain ⟨file, chunks, -, reads, lost⟩ := not_loads_long (n := 8193) (by decide)
  exact lost (claim file chunks reads)

end Zaytos.Shell
