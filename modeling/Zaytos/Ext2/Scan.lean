import Zaytos.Ext2.AllocSpec
import Zaytos.Ext2.Chain

set_option autoImplicit false

/-! `scan_directory` on blocks that are chains: the last record of the name, and the first
record with room behind it. -/
namespace Zaytos.Fs

/-- The record at `p` is in use and has this name. -/
def Named (d : Bytes) (name : List UInt8) (p : Nat) : Prop :=
  (recordAt d p).inode ≠ 0 ∧ (recordAt d p).name = name

/-- The record at `p` is in use and leaves `want` bytes behind its name. -/
def Roomy (d : Bytes) (want p : Nat) : Prop :=
  (recordAt d p).inode ≠ 0 ∧
    want ≤ (recordAt d p).recLen - direntSpan (recordAt d p).nameLen

instance (d : Bytes) (name : List UInt8) (p : Nat) : Decidable (Named d name p) := by
  unfold Named
  infer_instance

instance (d : Bytes) (want p : Nat) : Decidable (Roomy d want p) := by
  unfold Roomy
  infer_instance

/-- The effect of the inner loop of `scan_directory` on the records at the positions `ps`. -/
def scanRecords (d : Bytes) (name : List UInt8) (want : Nat) :
    Option Nat → List Nat → Scan → Scan
  | _, [], scan => scan
  | previous, p :: rest, scan =>
      scanRecords d name want (some p) rest {
        found := if Named d name p then some (p, previous) else scan.found
        room := if scan.room = none ∧ Roomy d want p then some (p, previous) else scan.room }

def scanChains (d : Bytes) (name : List UInt8) (want : Nat) (chains : List (List Nat))
    (scan : Scan) : Scan :=
  chains.foldl (fun scan ps => scanRecords d name want none ps scan) scan

variable {scan : Scan} {previous : Option Nat}

section Chains

variable {image : Bytes} {name : List UInt8} {want : Nat}

theorem scanBlock_eq {stop : Nat} (inside : stop ≤ image.len) (ps : List Nat) {pos fuel : Nat}
    (chain : Chain image stop pos ps)
    (enough : ps.length ≤ fuel) : scanBlock image name want stop fuel pos previous scan =
      .ok (scanRecords image name want previous ps scan) := by
  induction ps generalizing pos fuel previous scan with
  | nil =>
    have atEnd : pos = stop := chain
    have past : ¬ pos + direntHeaderLen ≤ stop := by
      simp only [direntHeaderLen]
      omega
    cases fuel <;> exact if_neg past
  | cons p rest ih =>
    obtain ⟨rfl, aligned, long, tail⟩ := chain
    have bound := tail.le
    cases fuel with
    | zero => simp at enough
    | succ fuel =>
      have header : p + direntHeaderLen ≤ stop := by
        simp only [direntHeaderLen]
        omega
      have accepted : ¬ (¬ direntAlignment ∣ image.u16 (p + 4) ∨
          image.u16 (p + 4) < direntHeaderLen + (image.get (p + 6)).toNat ∨
          stop < p + image.u16 (p + 4)) := by
        simp only [recordAt, direntAlignment, direntHeaderLen] at *
        omega
      have span : direntSpan (image.get (p + 6)).toNat ≤ image.u16 (p + 4) :=
        direntSpan_le aligned long
      have nameEnd : p + direntHeaderLen + (image.get (p + 6)).toNat ≤ image.len := by
        simp only [recordAt, direntHeaderLen] at *
        omega
      unfold scanBlock scanRecords
      rw [if_pos header, Bytes.readU32_of_le (by omega), Result.lift_some, Result.ok_bind,
        Bytes.readU16_of_le (by omega), Result.lift_some, Result.ok_bind,
        Bytes.readU8_of_lt (by omega), Result.lift_some, Result.ok_bind, Result.rejectIf_bind,
        if_neg accepted, Bytes.slice_of_le (by omega) nameEnd, sub_of_le span]
      rw [← ih tail (by simpa using enough)]
      have used : (recordAt image p).inode = image.u32 p := rfl
      by_cases free : image.u32 p = 0
      · have notNamed : ¬ Named image name p := fun named => named.1 free
        have notRoomy : ¬ Roomy image want p := fun roomy => roomy.1 free
        simp only [free, ne_eq, not_true_eq_false, and_false, ↓reduceIte, Result.pure_eq,
          Result.ok_bind, if_neg notNamed, notRoomy]
        rfl
      · have named : Named image name p ↔ image.view (p + 8) (image.get (p + 6)).toNat = name :=
          and_iff_right free
        have roomy : Roomy image want p ↔
            want ≤ image.u16 (p + 4) - direntSpan (image.get (p + 6)).toNat := and_iff_right free
        simp only [free, ne_eq, not_false_eq_true, and_true, ↓reduceIte, Result.lift_some,
          Result.ok_bind, Result.pure_eq, Nat.add_sub_cancel_left, Bytes.toList_shift, named]
        by_cases noRoom : scan.room = none
        · simp only [noRoom, true_and, ↓reduceIte, roomy]
          rfl
        · simp only [noRoom, false_and, ↓reduceIte]
          rfl

theorem scanRecords_found (ps : List Nat) : ((∀ p ∈ ps, ¬ Named image name p) ∧
      (scanRecords image name want previous ps scan).found = scan.found) ∨
    ∃ l p r, ps = l ++ p :: r ∧ Named image name p ∧ (∀ x ∈ r, ¬ Named image name x) ∧
      (scanRecords image name want previous ps scan).found = some (p, l.getLast?.or previous) := by
  induction ps generalizing previous scan with
  | nil => exact .inl ⟨fun p mem => absurd mem List.not_mem_nil, rfl⟩
  | cons q rest ih =>
    unfold scanRecords
    rcases ih with ⟨none, kept⟩ | ⟨l, p, r, rfl, named, last, found⟩
    · by_cases here : Named image name q
      · refine .inr ⟨[], q, rest, rfl, here, none, ?_⟩
        rw [kept, if_pos here]
        rfl
      · refine .inl ⟨fun p mem => ?_, by rw [kept, if_neg here]⟩
        rcases List.mem_cons.mp mem with rfl | later
        · exact here
        · exact none p later
    · refine .inr ⟨q :: l, p, r, rfl, named, last, ?_⟩
      rw [found]
      cases l with
      | nil => rfl
      | cons x l => simp [List.getLast?_eq_some_getLast]

theorem scanRecords_room (ps : List Nat) : (scan.room ≠ none ∨ ∀ p ∈ ps, ¬ Roomy image want p) ∧
      (scanRecords image name want previous ps scan).room = scan.room ∨
    ∃ p ∈ ps, Roomy image want p ∧
      ∃ before, (scanRecords image name want previous ps scan).room = some (p, before) := by
  induction ps generalizing previous scan with
  | nil => exact .inl ⟨.inr fun p mem => absurd mem List.not_mem_nil, rfl⟩
  | cons q rest ih =>
    unfold scanRecords
    by_cases here : scan.room = none ∧ Roomy image want q
    · rw [if_pos here]
      rcases ih with ⟨-, kept⟩ | ⟨p, mem, roomy, before, found⟩
      · exact .inr ⟨q, List.mem_cons_self, here.2, previous, kept⟩
      · exact .inr ⟨p, List.mem_cons_of_mem _ mem, roomy, before, found⟩
    · rw [if_neg here]
      rcases ih with ⟨none, kept⟩ | ⟨p, mem, roomy, before, found⟩
      · refine .inl ⟨?_, kept⟩
        by_cases fresh : scan.room = Option.none
        · right
          rcases none with some | none
          · exact absurd fresh some
          intro p mem
          rcases List.mem_cons.mp mem with rfl | later
          · exact fun roomy => here ⟨fresh, roomy⟩
          · exact none p later
        · exact .inl fresh
      · exact .inr ⟨p, List.mem_cons_of_mem _ mem, roomy, before, found⟩

theorem scanChains_found (chains : List (List Nat)) :
    ((∀ ps ∈ chains, ∀ p ∈ ps, ¬ Named image name p) ∧
      (scanChains image name want chains scan).found = scan.found) ∨
    ∃ before l p r after, chains = before ++ (l ++ p :: r) :: after ∧ Named image name p ∧
      (∀ x ∈ r, ¬ Named image name x) ∧ (∀ ps ∈ after, ∀ x ∈ ps, ¬ Named image name x) ∧
      (scanChains image name want chains scan).found = some (p, l.getLast?) := by
  induction chains generalizing scan with
  | nil => exact .inl ⟨fun ps mem => absurd mem List.not_mem_nil, rfl⟩
  | cons ps rest ih =>
    rcases ih with
      ⟨none, kept⟩ | ⟨before, l, p, r, after, rfl, named, last, later, found⟩
    · rcases scanRecords_found ps with
        ⟨noneHere, kept'⟩ | ⟨l, p, r, rfl, named, last, found⟩
      · refine .inl ⟨fun qs mem => ?_, kept.trans kept'⟩
        rcases List.mem_cons.mp mem with rfl | later
        · exact noneHere
        · exact none qs later
      · refine .inr ⟨[], l, p, r, rest, rfl, named, last, none, ?_⟩
        exact kept.trans (by rw [found, Option.or_none])
    · exact .inr ⟨ps :: before, l, p, r, after, rfl, named, last, later, found⟩

theorem scanChains_room (chains : List (List Nat)) :
    (scan.room ≠ none ∨ ∀ ps ∈ chains, ∀ p ∈ ps, ¬ Roomy image want p) ∧
      (scanChains image name want chains scan).room = scan.room ∨
    ∃ ps ∈ chains, ∃ p ∈ ps, Roomy image want p ∧
      ∃ before, (scanChains image name want chains scan).room = some (p, before) := by
  induction chains generalizing scan with
  | nil => exact .inl ⟨.inr fun ps mem => absurd mem List.not_mem_nil, rfl⟩
  | cons ps rest ih =>
    rcases ih with
      ⟨none, kept⟩ | ⟨qs, memQs, p, mem, roomy, before, found⟩
    · rcases scanRecords_room ps with
        ⟨noneHere, kept'⟩ | ⟨p, mem, roomy, before, found⟩
      · refine .inl ⟨?_, kept.trans kept'⟩
        by_cases fresh : scan.room = Option.none
        · right
          rw [kept'] at none
          intro qs memQs p mem
          rcases List.mem_cons.mp memQs with rfl | later
          · exact noneHere.resolve_left (fun ne => ne fresh) p mem
          · exact none.resolve_left (fun ne => ne fresh) qs later p mem
        · exact .inl fresh
      · exact .inr ⟨ps, List.mem_cons_self, p, mem, roomy, before, kept.trans found⟩
    · exact .inr ⟨qs, List.mem_cons_of_mem _ memQs, p, mem, roomy, before, found⟩

end Chains

section Slots

variable {L : Layout} {image : Bytes} {name : List UInt8} {want dirAt : Nat}

theorem scanSlots_eq (wf : L.Wf) (chains : Nat → List Nat) (remaining : Nat) {index : Nat}
    (slots : ∀ k, index ≤ k → k < index + remaining →
      iBlockSlot dirAt k + 4 ≤ image.len ∧ image.u32 (iBlockSlot dirAt k) ≠ 0 ∧
      image.u32 (iBlockSlot dirAt k) * L.blockSize + L.blockSize ≤ image.len ∧
      Chain image (image.u32 (iBlockSlot dirAt k) * L.blockSize + L.blockSize)
        (image.u32 (iBlockSlot dirAt k) * L.blockSize) (chains k)) :
    scanSlots L image dirAt name want index remaining scan =
      .ok (scanChains image name want ((List.range' index remaining).map chains) scan) := by
  induction remaining generalizing index scan with
  | zero => rfl
  | succ remaining ih =>
    obtain ⟨slotEnd, nonzero, blockEnd, chain⟩ := slots index (le_rfl) (by omega)
    have length := chain.length_le
    unfold scanSlots
    rw [Bytes.readU32_of_le slotEnd, Result.lift_some, Result.ok_bind, if_neg nonzero,
      Layout.blockAt_of_lt wf (image.u32_lt _), Result.ok_bind, Result.rejectIf_bind,
      if_neg (by omega), scanBlock_eq blockEnd _ chain (by omega), Result.ok_bind,
      ih fun k lower upper => slots k (by omega) (by omega)]
    rfl

end Slots

end Zaytos.Fs
