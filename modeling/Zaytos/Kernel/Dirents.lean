import Zaytos.Kernel.Getdents
import Zaytos.Lib.Slices

set_option autoImplicit false

/-! The walk of a program along the records that `getdents64` has written for it. -/
namespace Zaytos.Kernel

open Fs (DirEntry Ext2Error)
open Listing

abbrev direntReclenOffset : Nat := 16

abbrev direntNameOffset : Nat := 19

def leValue : List UInt8 → Nat
  | [] => 0
  | byte :: rest => byte.toNat + 256 * leValue rest

def fieldAt (buf : List UInt8) (at' width : Nat) : Nat := leValue ((buf.drop at').take width)

/-- The inner loop of `for_each_dirent`: where the name ends, with so many bytes of the record
left. -/
def nameEnd (buf : List UInt8) : Nat → Nat → Option Nat
  | 0, at' => some at'
  | left + 1, at' => do
    let byte ← buf[at']?
    if byte ≠ 0 then nameEnd buf left (at' + 1) else some at'

def reclenAt (buf : List UInt8) (at' : Nat) : Option Nat := do
  let low ← buf[at' + direntReclenOffset]?
  let high ← buf[at' + direntReclenOffset + 1]?
  some (low.toNat + 256 * high.toNat)

/-- The loop of `for_each_dirent` from a position on: the names that the body is called with. An
index that leaves the buffer has no outcome. -/
def forEachFrom (buf : List UInt8) (at' : Nat) : Option (List (List UInt8)) :=
  if at' + direntNameOffset ≤ buf.length then do
    let reclen ← reclenAt buf at'
    if reclen < direntNameOffset ∨ at' + reclen > buf.length then some []
    else do
      let stop ← nameEnd buf (reclen - direntNameOffset) (at' + direntNameOffset)
      let name ← Slices.slice buf (at' + direntNameOffset) stop
      let rest ← forEachFrom buf (at' + reclen)
      some (name :: rest)
  else some []
termination_by buf.length - at'
decreasing_by
  have header : direntNameOffset = 19 := rfl
  omega

def forEachDirent (buf : List UInt8) : Option (List (List UInt8)) := forEachFrom buf 0

theorem leValue_append (first rest : List UInt8) :
    leValue (first ++ rest) = leValue first + 256 ^ first.length * leValue rest := by
  induction first with
  | nil => simp [leValue]
  | cons byte first ih =>
    rw [List.cons_append, leValue, leValue, ih, List.length_cons, Nat.pow_succ]
    ring

theorem leValue_leBytes (n v : Nat) : leValue (leBytes n v) = v % 256 ^ n := by
  induction n with
  | zero => simp [leBytes, leValue, Nat.mod_one]
  | succ n ih =>
    have last : leBytes (n + 1) v = leBytes n v ++ [leByte v n] := by
      simp [leBytes, List.range_succ]
    rw [last, leValue_append, ih, leValue, leValue, Bytes.leByte_toNat, Nat.pow_succ, Nat.mod_mul]
    simp [leBytes]

theorem leValue_leBytes_of_lt {n v : Nat} (small : v < 256 ^ n) : leValue (leBytes n v) = v := by
  rw [leValue_leBytes, Nat.mod_eq_of_lt small]

section

variable {buf : List UInt8}

theorem nameEnd_ok {left at' : Nat} (inside : at' + left ≤ buf.length) :
    ∃ stop, nameEnd buf left at' = some stop ∧ at' ≤ stop ∧ stop ≤ at' + left := by
  induction left generalizing at' with
  | zero => exact ⟨at', rfl, Nat.le_refl _, Nat.le_refl _⟩
  | succ left ih =>
    rw [nameEnd, List.getElem?_eq_getElem (by omega)]
    by_cases more : buf[at'] ≠ 0
    · obtain ⟨stop, found, above, below⟩ := @ih (at' + 1) (by omega)
      refine ⟨stop, ?_, by omega, by omega⟩
      simp only [Option.bind_eq_bind, Option.bind_some, if_pos more, found]
    · refine ⟨at', ?_, Nat.le_refl _, by omega⟩
      simp only [Option.bind_eq_bind, Option.bind_some, if_neg more]

theorem reclenAt_ok {at' : Nat} (header : at' + direntNameOffset ≤ buf.length) :
    ∃ reclen, reclenAt buf at' = some reclen := by
  have name : direntNameOffset = 19 := rfl
  have field : direntReclenOffset = 16 := rfl
  rw [reclenAt, List.getElem?_eq_getElem (by omega), List.getElem?_eq_getElem (by omega)]
  exact ⟨_, rfl⟩

theorem forEachFrom_ok (at' : Nat) : ∃ names, forEachFrom buf at' = some names := by
  induction left : buf.length - at' using Nat.strongRecOn generalizing at' with
  | ind left ih =>
    have name : direntNameOffset = 19 := rfl
    rw [forEachFrom]
    by_cases header : at' + direntNameOffset ≤ buf.length
    · obtain ⟨reclen, field⟩ := reclenAt_ok header
      rw [if_pos header, field]
      simp only [Option.bind_eq_bind, Option.bind_some]
      by_cases broken : reclen < direntNameOffset ∨ at' + reclen > buf.length
      · exact ⟨[], if_pos broken⟩
      · obtain ⟨stop, found, above, below⟩ :=
          @nameEnd_ok buf (reclen - direntNameOffset) (at' + direntNameOffset) (by omega)
        obtain ⟨names, rest⟩ := ih (buf.length - (at' + reclen)) (by omega) (at' + reclen) rfl
        rw [if_neg broken, found, Option.bind_some, Slices.slice, if_pos (by omega), rest]
        exact ⟨_, rfl⟩
    · exact ⟨[], if_neg header⟩

theorem nameEnd_eq {before name after : List UInt8} {left : Nat} (plain : 0 ∉ name)
    (enough : name.length < left) :
    nameEnd (before ++ (name ++ 0 :: after)) left before.length =
      some (before.length + name.length) := by
  induction name generalizing before left with
  | nil =>
    cases left with
    | zero => cases enough
    | succ left => simp [nameEnd]
  | cons byte name ih =>
    cases left with
    | zero => cases enough
    | succ left =>
      have nonzero : byte ≠ 0 := fun zero => plain (zero ▸ List.mem_cons_self)
      have further := @ih (before ++ [byte]) left (fun mem => plain (List.mem_cons_of_mem _ mem))
        (Nat.lt_of_succ_lt_succ enough)
      rw [List.append_assoc, List.length_append] at further
      rw [nameEnd, List.getElem?_append_right (Nat.le_refl _), Nat.sub_self]
      simp only [List.cons_append, List.getElem?_cons_zero, Option.bind_eq_bind, Option.bind_some,
        if_pos nonzero]
      simp only [List.singleton_append, List.length_singleton] at further
      rw [further, List.length_cons, Nat.add_assoc, Nat.add_comm 1]

end

def headerOf (e : DirEntry) : List UInt8 :=
  leBytes 8 e.inode ++ (leBytes 8 e.nextOffset ++
    (leBytes 2 (recordLen e) ++ [direntTypeFor e.fileType]))

@[simp] theorem length_leBytes (n v : Nat) : (leBytes n v).length = n := by
  simp [leBytes]

theorem length_headerOf (e : DirEntry) : (headerOf e).length = direntNameOffset := by
  simp [headerOf]

theorem recordLen_eq (e : DirEntry) : recordLen e = (e.name.length + 27) / 8 * 8 :=
  dirent64RecordLen_eq _

theorem recordOf_eq {e : DirEntry} (short : e.name.length ≤ 255) :
    ∃ pad, recordOf e = headerOf e ++ (e.name ++ 0 :: List.replicate pad 0) ∧
      recordLen e = direntNameOffset + (e.name.length + (pad + 1)) := by
  have length := recordLen_eq e
  have header : direntNameOffset = 19 := rfl
  obtain ⟨pad, room⟩ : ∃ pad, recordLen e = direntNameOffset + (e.name.length + (pad + 1)) :=
    ⟨recordLen e - e.name.length - 20, by omega⟩
  refine ⟨pad, ?_, room⟩
  have zeros : recordLen e - (19 + e.name.length) = pad + 1 := by omega
  unfold recordOf dirent64Record
  dsimp only
  rw [if_neg (record_fits short), Option.getD_some]
  show leBytes 8 e.inode ++ leBytes 8 e.nextOffset ++ leBytes 2 (recordLen e) ++ _ ++ e.name ++
    List.replicate (recordLen e - (19 + e.name.length)) 0 = _
  rw [zeros, List.replicate_succ]
  simp [headerOf, List.append_assoc]

theorem recordLen_lt {e : DirEntry} (short : e.name.length ≤ 255) : recordLen e < 2 ^ 16 := by
  rw [recordLen_eq]
  omega

theorem fieldAt_eq {buf before field after : List UInt8} {at' width : Nat}
    (whole : buf = before ++ (field ++ after)) (place : at' = before.length)
    (size : width = field.length) : fieldAt buf at' width = leValue field := by
  rw [fieldAt, whole, place, size, List.drop_left, List.take_left]

section

variable {before after : List UInt8} {e : DirEntry}

theorem fieldAt_record (short : e.name.length ≤ 255) (inode : e.inode < 2 ^ 64)
    (offset : e.nextOffset < 2 ^ 64) :
    fieldAt (before ++ (recordOf e ++ after)) before.length 8 = e.inode ∧
      fieldAt (before ++ (recordOf e ++ after)) (before.length + 8) 8 = e.nextOffset ∧
      fieldAt (before ++ (recordOf e ++ after)) (before.length + direntReclenOffset) 2 =
        recordLen e := by
  obtain ⟨pad, record, -⟩ := recordOf_eq short
  rw [record, headerOf]
  generalize e.name ++ 0 :: List.replicate pad 0 ++ after = tail
  refine ⟨?_, ?_, ?_⟩
  · rw [@fieldAt_eq _ before (leBytes 8 e.inode) _ _ 8 (by simp only [List.append_assoc]; rfl) rfl
      (by simp), leValue_leBytes_of_lt inode]
  · rw [@fieldAt_eq _ (before ++ leBytes 8 e.inode) (leBytes 8 e.nextOffset) _ _ 8
      (by simp only [List.append_assoc]; rfl) (by simp) (by simp), leValue_leBytes_of_lt offset]
  · rw [@fieldAt_eq _ (before ++ (leBytes 8 e.inode ++ leBytes 8 e.nextOffset))
      (leBytes 2 (recordLen e)) _ _ 2 (by simp only [List.append_assoc]; rfl) (by simp) (by simp),
      leValue_leBytes_of_lt (recordLen_lt short)]

theorem reclenAt_record (short : e.name.length ≤ 255) :
    reclenAt (before ++ (recordOf e ++ after)) before.length = some (recordLen e) := by
  obtain ⟨pad, record, -⟩ := recordOf_eq short
  have whole : before ++ (recordOf e ++ after) =
      (before ++ (leBytes 8 e.inode ++ leBytes 8 e.nextOffset)) ++ (leByte (recordLen e) 0 ::
        leByte (recordLen e) 1 :: ([direntTypeFor e.fileType] ++
          (e.name ++ 0 :: List.replicate pad 0) ++ after)) := by
    rw [record, headerOf, show leBytes 2 (recordLen e) =
      [leByte (recordLen e) 0, leByte (recordLen e) 1] from rfl]
    simp only [List.append_assoc, List.cons_append, List.nil_append]
  have start : before.length + direntReclenOffset =
      (before ++ (leBytes 8 e.inode ++ leBytes 8 e.nextOffset)).length := by simp
  have small := recordLen_lt short
  rw [reclenAt, whole, start, List.getElem?_append_right (Nat.le_refl _),
    List.getElem?_append_right (Nat.le_add_right _ _), Nat.sub_self, Nat.add_sub_cancel_left]
  simp only [List.getElem?_cons_zero, List.getElem?_cons_succ, Option.bind_eq_bind,
    Option.bind_some, Bytes.leByte_toNat, Option.some.injEq]
  omega

theorem forEachFrom_record (short : e.name.length ≤ 255) (plain : 0 ∉ e.name) :
    forEachFrom (before ++ (recordOf e ++ after)) before.length =
      (forEachFrom (before ++ (recordOf e ++ after)) (before ++ recordOf e).length).map
        (e.name :: ·) := by
  obtain ⟨pad, record, room⟩ := recordOf_eq short
  have length := length_recordOf short
  have header : direntNameOffset = 19 := rfl
  have name : before.length + direntNameOffset = (before ++ headerOf e).length := by
    rw [List.length_append, length_headerOf]
  have whole : before ++ (recordOf e ++ after) =
      before ++ headerOf e ++ (e.name ++ 0 :: (List.replicate pad 0 ++ after)) := by
    rw [record]
    simp only [List.append_assoc, List.cons_append]
  have inside : before.length + recordLen e ≤ (before ++ (recordOf e ++ after)).length := by
    simp only [List.length_append]
    omega
  have left : e.name.length < recordLen e - direntNameOffset := by omega
  rw [forEachFrom, if_pos (by omega), reclenAt_record short]
  simp only [Option.bind_eq_bind, Option.bind_some]
  rw [if_neg (by omega), List.length_append, length, name]
  nth_rewrite 1 [whole]
  rw [nameEnd_eq plain left, Option.bind_some]
  nth_rewrite 1 [whole]
  rw [Slices.slice_append, Option.bind_some]
  cases forEachFrom (before ++ (recordOf e ++ after)) (before.length + recordLen e) <;> rfl

end

theorem forEachFrom_records {entries : List DirEntry} (before : List UInt8)
    (short : ∀ e ∈ entries, e.name.length ≤ 255) (plain : ∀ e ∈ entries, 0 ∉ e.name) :
    forEachFrom (before ++ records entries) before.length = some (entries.map DirEntry.name) := by
  induction entries generalizing before with
  | nil =>
    have header : direntNameOffset = 19 := rfl
    rw [forEachFrom, if_neg (by simp)]
    rfl
  | cons e rest ih =>
    simp only [List.forall_mem_cons] at short plain
    have further := ih (before ++ recordOf e) short.2 plain.2
    rw [List.append_assoc] at further
    rw [records_cons, forEachFrom_record short.1 plain.1, further]
    rfl

theorem records_take_succ {entries : List DirEntry} {i : Nat} {e : DirEntry}
    (found : entries[i]? = some e) :
    records entries =
      records (entries.take i) ++ (recordOf e ++ records (entries.drop (i + 1))) := by
  obtain ⟨small, eq⟩ := List.getElem?_eq_some_iff.mp found
  rw [← records_cons, ← records_append, ← eq, ← List.drop_eq_getElem_cons small,
    List.take_append_drop]

theorem dvd_length_records {entries : List DirEntry}
    (short : ∀ e ∈ entries, e.name.length ≤ 255) : 8 ∣ (records entries).length := by
  induction entries with
  | nil => exact Nat.dvd_zero 8
  | cons e rest ih =>
    simp only [List.forall_mem_cons] at short
    rw [records_cons, List.length_append, length_recordOf short.1, recordLen_eq]
    exact Nat.dvd_add (Nat.dvd_mul_left 8 _) (ih short.2)

theorem length_records_fitting {entries : List DirEntry} {room : Nat}
    (short : ∀ e ∈ entries, e.name.length ≤ 255) :
    (records (entries.take (fitting entries room))).length ≤ room ∧
      ∀ e, entries[fitting entries room]? = some e →
        room < (records (entries.take (fitting entries room))).length + recordLen e := by
  induction entries generalizing room with
  | nil => simp [fitting]
  | cons e rest ih =>
    simp only [List.forall_mem_cons] at short
    have length := length_recordOf short.1
    rw [fitting]
    split
    case isTrue fits =>
      have further := @ih (room - recordLen e) short.2
      rw [List.take_succ_cons, records_cons, List.length_append, length,
        List.getElem?_cons_succ]
      refine ⟨by omega, ?_⟩
      intro e' found
      have := further.2 e' found
      omega
    case isFalse full =>
      rw [List.take_zero, records_nil, List.getElem?_cons_zero]
      refine ⟨Nat.zero_le _, ?_⟩
      intro e' found
      cases found
      simpa using full

/-- An entry as directories have them: a name of 1 to 255 bytes without a NUL, and numbers that fit
their types. -/
structure Named (e : DirEntry) : Prop where
  nonempty : 1 ≤ e.name.length
  short : e.name.length ≤ 255
  plain : 0 ∉ e.name
  inode : e.inode < 2 ^ 32
  offset : e.nextOffset < 2 ^ 64

/-- What the loop of `sys_getdents64` writes is the records of the entries that fit, whole words
with the numbers of their entries in them, and the walk along them comes to just the names of these
entries. Along anything else the walk ends as well, without leaving the buffer. -/
theorem dirents_survive :
    (∀ buf, ∃ names, forEachDirent buf = some names) ∧
    ∀ (entries : List DirEntry) (count start : Nat), (∀ e ∈ entries, Named e) →
      ∃ n written nextFrom,
        FileCall.fillItems count (entries.map .ok) ⟨[], start⟩ = .ok ⟨written, nextFrom⟩ ∧
        n ≤ entries.length ∧ written = records (entries.take n) ∧ written.length ≤ count ∧
        (∀ e, entries[n]? = some e → count < written.length + recordLen e) ∧
        forEachDirent written = some ((entries.take n).map DirEntry.name) ∧
        ∀ i e, i < n → entries[i]? = some e →
          let at' := (records (entries.take i)).length
          8 ∣ at' ∧ fieldAt written at' 8 = e.inode ∧ fieldAt written (at' + 8) 8 = e.nextOffset ∧
            fieldAt written (at' + direntReclenOffset) 2 = recordLen e := by
  refine ⟨fun buf => forEachFrom_ok 0, ?_⟩
  intro entries count start named
  have short : ∀ e ∈ entries, e.name.length ≤ 255 := fun e mem => (named e mem).short
  have filled := FileCall.fillItems_entries short [] ⟨[], start⟩ (Nat.zero_le count)
  simp only [List.append_nil, FileCall.fillItems, ite_self, List.nil_append, List.length_nil,
    Nat.sub_zero] at filled
  have room := @length_records_fitting entries count short
  have take : ∀ e ∈ entries.take (fitting entries count), e ∈ entries :=
    fun e mem => List.mem_of_mem_take mem
  refine ⟨fitting entries count, _, _, filled, fitting_le entries count, rfl, room.1, room.2,
    ?_, ?_⟩
  · exact forEachFrom_records [] (fun e mem => short e (take e mem))
      (fun e mem => (named e (take e mem)).plain)
  · intro i e small found at'
    have mem := named e (List.mem_of_getElem? found)
    have whole := records_take_succ
      (show (entries.take (fitting entries count))[i]? = some e by
        rw [List.getElem?_take_of_lt small, found])
    rw [List.take_take, Nat.min_eq_left (Nat.le_of_lt small)] at whole
    rw [whole]
    refine ⟨dvd_length_records fun e mem => short e (List.mem_of_mem_take mem), ?_⟩
    exact fieldAt_record mem.short (Nat.lt_trans mem.inode (by decide)) mem.offset

/-- Of `a` and `bc` only `a` is written where there is room for 30 bytes. -/
theorem dirents_survive_first :
    ∃ written nextFrom, FileCall.fillItems 30
        [.ok ⟨12, 1, [97], 16⟩, .ok ⟨13, 1, [98, 99], 32⟩] ⟨[], 0⟩ = .ok ⟨written, nextFrom⟩ ∧
      forEachDirent written = some [[97]] := by
  obtain ⟨n, written, nextFrom, filled, -, eq, -, -, names, -⟩ :=
    dirents_survive.2 [⟨12, 1, [97], 16⟩, ⟨13, 1, [98, 99], 32⟩] 30 0 (by
      simp only [List.forall_mem_cons, List.not_mem_nil, false_implies, implies_true, and_true]
      exact ⟨⟨by decide, by decide, by decide, by decide, by decide⟩,
        ⟨by decide, by decide, by decide, by decide, by decide⟩⟩)
  refine ⟨written, nextFrom, filled, ?_⟩
  rw [names]
  cases filled
  cases n with
  | zero => cases eq
  | succ n =>
    cases n with
    | zero => rfl
    | succ n => cases eq

end Zaytos.Kernel
