import Zaytos.Zi.Buffer

set_option autoImplicit false

/-! The two halves of the region of the editor's buffer: what is done to the text leaves the index
as it is, what is done to the index leaves the text, and more room leaves both. -/
namespace Zaytos.Zi

open Zaytos.Kernel (heapLimit)

theorem getElem?_view (d : Bytes) (pos n i : Nat) :
    (d.view pos n)[i]? = if i < n then some (d.get (pos + i)) else none := by
  unfold Bytes.view
  by_cases inside : i < n <;> simp [inside]

variable {d : Bytes} {first second middle : List UInt8} {pos : Nat} {f : Nat → Option Nat}
  {g : Nat → Nat}

theorem copyWithin_of_le {cap start stop dest : Nat} (order : start ≤ stop)
    (source : stop ≤ cap) (target : dest + (stop - start) ≤ cap) (room : cap ≤ d.len) :
    copyWithin d cap start stop dest =
      some (d.put dest (stop - start) fun k => d.get (start + k)) :=
  if_pos ⟨order, source, target, room⟩

theorem view_opened {n : Nat} (text : d.view 0 n = first ++ second) (byte : UInt8) :
    ((d.put (first.length + 1) (n - first.length) fun k => d.get (first.length + k)).put
      first.length 1 fun _ => byte).view 0 (n + 1) = first ++ byte :: second := by
  have size : n = first.length + second.length := by
    have lengths := congrArg List.length text
    simpa [Bytes.view] using lengths
  have old : ∀ i, i < n → (first ++ second)[i]? = some (d.get i) := by
    intro i inside
    rw [← text, getElem?_view, if_pos inside, zero_add]
  apply List.ext_getElem?
  intro i
  rw [getElem?_view, zero_add]
  rcases Nat.lt_trichotomy i first.length with early | here | late
  · rw [if_pos (by omega), Bytes.get_put_outside _ (by omega), Bytes.get_put_outside _ (by omega),
      List.getElem?_append_left early, ← old i (by omega), List.getElem?_append_left early]
  · rw [if_pos (by omega), Bytes.get_put_inside _ (by omega) (by omega), here]
    simp
  · rw [List.getElem?_append_right (by omega)]
    obtain ⟨k, rfl⟩ : ∃ k, i = first.length + (k + 1) := ⟨i - first.length - 1, by omega⟩
    rw [show first.length + (k + 1) - first.length = k + 1 by omega, List.getElem?_cons_succ]
    by_cases inside : k < second.length
    · have before := old (first.length + k) (by omega)
      rw [List.getElem?_append_right (by omega), Nat.add_sub_cancel_left] at before
      rw [if_pos (by omega), Bytes.get_put_outside _ (by omega),
        Bytes.get_put_inside _ (by omega) (by omega), before]
      congr 2
      omega
    · rw [if_neg (by omega), List.getElem?_eq_none (by omega)]

theorem view_closed {n : Nat} (text : d.view 0 n = first ++ (middle ++ second)) :
    (d.put first.length (n - (first.length + middle.length)) fun k =>
      d.get (first.length + middle.length + k)).view 0 (n - middle.length) = first ++ second := by
  have size : n = first.length + (middle.length + second.length) := by
    have lengths := congrArg List.length text
    simpa [Bytes.view] using lengths
  have old : ∀ i, i < n → (first ++ (middle ++ second))[i]? = some (d.get i) := by
    intro i inside
    rw [← text, getElem?_view, if_pos inside, zero_add]
  apply List.ext_getElem?
  intro i
  rw [getElem?_view, zero_add]
  by_cases early : i < first.length
  · rw [if_pos (by omega), Bytes.get_put_outside _ (by omega), List.getElem?_append_left early,
      ← old i (by omega), List.getElem?_append_left early]
  · rw [List.getElem?_append_right (by omega)]
    by_cases inside : i - first.length < second.length
    · have before := old (i + middle.length) (by omega)
      rw [List.getElem?_append_right (by omega), List.getElem?_append_right (by omega)] at before
      rw [if_pos (by omega), Bytes.get_put_inside _ (by omega) (by omega),
        show i - first.length = i + middle.length - first.length - middle.length by omega, before]
      congr 2
      omega
    · rw [if_neg (by omega), List.getElem?_eq_none (by omega)]

theorem view_put {d : Bytes} {f : Nat → UInt8} {n : Nat} {content chunk : List UInt8}
    (text : d.view 0 n = content) (bytes : ∀ k, k < chunk.length → f k = chunk.getD k 0) :
    (d.put n chunk.length f).view 0 (n + chunk.length) = content ++ chunk := by
  have size : content.length = n := by
    rw [← text]
    simp [Bytes.view]
  apply List.ext_getElem?
  intro i
  rw [getElem?_view, zero_add]
  by_cases early : i < n
  · have old := congrArg (fun xs => xs[i]?) text
    rw [getElem?_view, if_pos early, zero_add] at old
    rw [if_pos (by omega), Bytes.get_put_outside _ (by omega), List.getElem?_append_left (by omega)]
    exact old
  · rw [List.getElem?_append_right (by omega), size]
    by_cases inside : i - n < chunk.length
    · rw [if_pos (by omega), Bytes.get_put_inside _ (by omega) (by omega), bytes _ inside,
        List.getD_eq_getElem _ _ inside, List.getElem?_eq_getElem inside]
    · rw [if_neg (by omega), List.getElem?_eq_none (by omega)]

theorem u64_congr {d' : Bytes} {pos' : Nat}
    (same : ∀ k, k < 8 → d'.get (pos' + k) = d.get (pos + k)) : d'.u64 pos' = d.u64 pos := by
  have at' : ∀ k, k < 8 → d'.get (pos' + k) = d.get (pos + k) := same
  unfold Bytes.u64 Bytes.u32 Bytes.u16
  simp only [add_assoc]
  have zero := at' 0 (by omega)
  rw [add_zero, add_zero] at zero
  rw [zero, at' 1 (by omega), at' 2 (by omega), at' (2 + 1) (by omega), at' 4 (by omega),
    at' (4 + 1) (by omega), at' (4 + 2) (by omega), at' (4 + (2 + 1)) (by omega)]

theorem roundUpWord_spec (bytes : Nat) :
    bytes ≤ roundUpWord bytes ∧ roundUpWord bytes % word = 0 := by
  unfold roundUpWord
  have size : word = 8 := rfl
  rw [size]
  omega

theorem growTo_cases (reaches : Reaches) (region : Bytes) (bytes : Nat) :
    growTo reaches region bytes = .error region ∨
      ∃ bigger, growTo reaches region bytes = .ok bigger ∧ region.len < bytes ∧
        bytes ≤ heapLimit ∧ bigger.len = bytes ∧
        ∀ i, i < region.len → bigger.get i = region.get i := by
  unfold growTo
  split
  case isTrue => exact .inl rfl
  case isFalse more =>
    split
    case isFalse => exact .inl rfl
    case isTrue allowed =>
      exact .inr ⟨_, rfl, Nat.lt_of_not_le more, allowed.1, rfl, fun i inside => if_pos inside⟩

namespace Buffer

def entry (b : Buffer) (row : Nat) : Nat := b.region.u64 (b.textCap + row * word)

structure Shaped (b : Buffer) : Prop where
  split : b.Split
  small : b.region.len ≤ heapLimit

structure Alike (b b' : Buffer) : Prop where
  len : b'.region.len = b.region.len
  textCap : b'.textCap = b.textCap
  indexCap : b'.indexCap = b.indexCap
  count : b'.count = b.count
  used : b'.used = b.used

structure Retyped (b b' : Buffer) : Prop extends Alike b b' where
  entry : ∀ row, b'.entry row = b.entry row

structure Reindexed (b b' : Buffer) : Prop extends Alike b b' where
  get : ∀ i, i < b.textCap → b'.region.get i = b.region.get i

variable {b b' b'' : Buffer} {row k i n : Nat}

theorem Alike.shaped (alike : Alike b b') (shaped : b.Shaped) : b'.Shaped := by
  rcases shaped with ⟨split, small⟩
  unfold Split at split
  refine ⟨?_, ?_⟩
  · unfold Split
    rw [alike.len, alike.textCap, alike.indexCap]
    exact split
  · rw [alike.len]
    exact small

theorem Alike.refl (b : Buffer) : Alike b b := ⟨rfl, rfl, rfl, rfl, rfl⟩

theorem Alike.trans (first : Alike b b') (second : Alike b' b'') : Alike b b'' :=
  ⟨second.len.trans first.len, second.textCap.trans first.textCap,
    second.indexCap.trans first.indexCap, second.count.trans first.count,
    second.used.trans first.used⟩

theorem Retyped.trans (first : Retyped b b') (second : Retyped b' b'') : Retyped b b'' :=
  ⟨first.toAlike.trans second.toAlike, fun row => (second.entry row).trans (first.entry row)⟩

theorem Reindexed.refl (b : Buffer) : Reindexed b b := ⟨.refl b, fun _ _ => rfl⟩

theorem Reindexed.trans (first : Reindexed b b') (second : Reindexed b' b'') :
    Reindexed b b'' := by
  refine ⟨first.toAlike.trans second.toAlike, ?_⟩
  intro i inside
  rw [second.get i (first.textCap ▸ inside), first.get i inside]

theorem Reindexed.view (reindexed : Reindexed b b') (inside : n ≤ b.textCap) :
    b'.region.view 0 n = b.region.view 0 n := by
  apply List.ext_getElem?
  intro i
  rw [getElem?_view, getElem?_view]
  by_cases before : i < n
  · rw [if_pos before, if_pos before, zero_add, reindexed.get i (by omega)]
  · rw [if_neg before, if_neg before]

section Entries

variable (shaped : b.Shaped)
include shaped

theorem Shaped.startOf_eq (inside : row < b.indexCap) : b.startOf row = some (b.entry row) :=
  if_pos ⟨shaped.split, inside⟩

theorem Shaped.cap_le : b.textCap ≤ b.region.len := by
  have split := shaped.split
  unfold Split at split
  omega

theorem Shaped.setStart_spec (row value : Nat) (inside : row < b.indexCap)
    (small : value < 2 ^ 64) :
    ∃ b', b.setStart row value = some b' ∧ Reindexed b b' ∧
      ∀ i, b'.entry i = if i = row then value else b.entry i := by
  refine ⟨_, if_pos ⟨shaped.split, inside⟩, ⟨⟨rfl, rfl, rfl, rfl, rfl⟩, ?_⟩, ?_⟩
  · intro i before
    apply Bytes.get_put_outside
    omega
  · intro i
    unfold entry
    dsimp only
    by_cases same : i = row
    · rw [if_pos same, same, Bytes.u64_putU64, Nat.mod_eq_of_lt small]
    · have size : word = 8 := rfl
      rw [if_neg same, size]
      apply Bytes.u64_putU64_outside
      omega

theorem Shaped.moveStart_spec (source dest : Nat) {value : Nat}
    (known : source < b.indexCap) (inside : dest < b.indexCap)
    (moved : f (b.entry source) = some value) (small : value < 2 ^ 64) :
    ∃ b', b.moveStart f source dest = some b' ∧ Reindexed b b' ∧
      ∀ i, b'.entry i = if i = dest then value else b.entry i := by
  obtain ⟨b', done, rest⟩ := shaped.setStart_spec dest value inside small
  refine ⟨b', ?_, rest⟩
  unfold moveStart
  rw [shaped.startOf_eq known, Option.bind_eq_bind, Option.bind_some, moved]
  exact done

theorem Shaped.shift_spec (d : Nat) (inside : k + n + d ≤ b.indexCap)
    (moves : ∀ i, k + d ≤ i → i < k + d + n → f (b.entry i) = some (g i) ∧ g i < 2 ^ 64) :
    ∃ b', (List.range' k n).foldlM (fun b i => b.moveStart f (i + d) i) b = some b' ∧
      Reindexed b b' ∧ ∀ i, b'.entry i = if k ≤ i ∧ i < k + n then g (i + d) else b.entry i := by
  induction n generalizing k b with
  | zero =>
    refine ⟨b, rfl, .refl b, ?_⟩
    intro i
    rw [if_neg (by omega)]
  | succ n ih =>
    obtain ⟨value, small⟩ := moves (k + d) le_rfl (by omega)
    obtain ⟨b₁, first, reindexed, entries⟩ :=
      shaped.moveStart_spec (k + d) k (by omega) (by omega) value small
    have rest := ih (reindexed.shaped shaped) (k := k + 1) (by
      rw [reindexed.indexCap]
      omega) (by
      intro i after before
      rw [entries, if_neg (by omega)]
      exact moves i (by omega) (by omega))
    obtain ⟨b₂, second, reindexed₂, entries₂⟩ := rest
    refine ⟨b₂, ?_, reindexed.trans reindexed₂, ?_⟩
    · rw [List.range'_succ, List.foldlM_cons, first]
      exact second
    · intro i
      rw [entries₂, entries]
      by_cases here : i = k
      · rw [if_neg (by omega), if_pos here, if_pos (by omega), here]
      · rw [if_neg here]
        by_cases later : k + 1 ≤ i ∧ i < k + 1 + n
        · rw [if_pos later, if_pos (by omega)]
        · rw [if_neg later, if_neg (by omega)]

theorem Shaped.each_spec (inside : k + n ≤ b.indexCap)
    (moves : ∀ i, k ≤ i → i < k + n → f (b.entry i) = some (g i) ∧ g i < 2 ^ 64) :
    ∃ b', (List.range' k n).foldlM (fun b i => b.moveStart f i i) b = some b' ∧ Reindexed b b' ∧
      ∀ i, b'.entry i = if k ≤ i ∧ i < k + n then g i else b.entry i :=
  shaped.shift_spec 0 inside moves

theorem Shaped.up_spec (inside : k + n < b.indexCap)
    (moves : ∀ i, k ≤ i → i < k + n → f (b.entry i) = some (g i) ∧ g i < 2 ^ 64) :
    ∃ b', (List.range' k n).reverse.foldlM (fun b i => b.moveStart f i (i + 1)) b = some b' ∧
      Reindexed b b' ∧ ∀ i, b'.entry i = if k < i ∧ i ≤ k + n then g (i - 1) else b.entry i := by
  induction n generalizing b with
  | zero =>
    refine ⟨b, rfl, .refl b, ?_⟩
    intro i
    rw [if_neg (by omega)]
  | succ n ih =>
    obtain ⟨value, small⟩ := moves (k + n) (by omega) (by omega)
    obtain ⟨b₁, first, reindexed, entries⟩ :=
      shaped.moveStart_spec (k + n) (k + n + 1) (by omega) (by omega) value small
    have rest := ih (reindexed.shaped shaped) (by
      rw [reindexed.indexCap]
      omega) (by
      intro i after before
      rw [entries, if_neg (by omega)]
      exact moves i after (by omega))
    obtain ⟨b₂, second, reindexed₂, entries₂⟩ := rest
    refine ⟨b₂, ?_, reindexed.trans reindexed₂, ?_⟩
    · rw [List.range'_1_concat, List.reverse_append, List.reverse_singleton, List.singleton_append,
        List.foldlM_cons, first]
      exact second
    · intro i
      rw [entries₂, entries]
      by_cases here : i = k + n + 1
      · rw [if_neg (by omega), if_pos here, if_pos (by omega), here]
        rfl
      · rw [if_neg here]
        by_cases earlier : k < i ∧ i ≤ k + n
        · rw [if_pos earlier, if_pos (by omega)]
        · rw [if_neg earlier, if_neg (by omega)]

theorem Shaped.down_spec (inside : k + n < b.indexCap)
    (moves : ∀ i, k < i → i ≤ k + n → f (b.entry i) = some (g i) ∧ g i < 2 ^ 64) :
    ∃ b', (List.range' k n).foldlM (fun b i => b.moveStart f (i + 1) i) b = some b' ∧
      Reindexed b b' ∧ ∀ i, b'.entry i = if k ≤ i ∧ i < k + n then g (i + 1) else b.entry i :=
  shaped.shift_spec 1 inside fun i after before => moves i after (by omega)

end Entries

section Texts

variable (shaped : b.Shaped)
include shaped

theorem Shaped.byteAt_eq (inside : i < b.textCap) : b.byteAt i = some (b.region.get i) :=
  if_pos ⟨inside, shaped.cap_le⟩

omit shaped in
theorem put_retyped (f : Nat → UInt8) (inside : pos + n ≤ b.textCap) :
    Retyped b { b with region := b.region.put pos n f } := by
  refine ⟨⟨rfl, rfl, rfl, rfl, rfl⟩, ?_⟩
  intro row
  apply Bytes.u64_put_outside
  dsimp only
  omega

theorem Shaped.setByte_spec (byte : UInt8) (inside : i < b.textCap) :
    ∃ b', b.setByte i byte = some b' ∧ Retyped b b' ∧
      b'.region = b.region.put i 1 fun _ => byte :=
  ⟨_, if_pos ⟨inside, shaped.cap_le⟩, put_retyped _ inside, rfl⟩

theorem Shaped.copyText_spec (start stop dest : Nat) (order : start ≤ stop)
    (source : stop ≤ b.textCap) (target : dest + (stop - start) ≤ b.textCap) :
    ∃ b', b.copyText start stop dest = some b' ∧ Retyped b b' ∧
      b'.region = b.region.put dest (stop - start) fun k => b.region.get (start + k) := by
  have copied := copyWithin_of_le order source target shaped.cap_le
  refine ⟨_, ?_, put_retyped (fun k => b.region.get (start + k)) target, rfl⟩
  unfold copyText
  rw [copied]
  rfl

theorem Shaped.open_spec (text : b.region.view 0 n = first ++ second)
    (byte : UInt8) (room : n + 1 ≤ b.textCap) :
    ∃ b₁ b', b.copyText first.length n (first.length + 1) = some b₁ ∧
      b₁.setByte first.length byte = some b' ∧ Retyped b b' ∧
      b'.region.view 0 (n + 1) = first ++ byte :: second := by
  have size : n = first.length + second.length := by
    have lengths := congrArg List.length text
    simpa [Bytes.view] using lengths
  obtain ⟨b₁, copied, retyped₁, region₁⟩ := shaped.copyText_spec first.length n
    (first.length + 1) (by omega) (by omega) (by omega)
  obtain ⟨b', set, retyped', region'⟩ := (retyped₁.shaped shaped).setByte_spec
    (i := first.length) byte (by rw [retyped₁.textCap]; omega)
  refine ⟨b₁, b', copied, set, retyped₁.trans retyped', ?_⟩
  rw [region', region₁]
  exact view_opened text byte

theorem Shaped.close_spec
    (text : b.region.view 0 n = first ++ (middle ++ second)) (room : n ≤ b.textCap) :
    ∃ b', b.copyText (first.length + middle.length) n first.length = some b' ∧ Retyped b b' ∧
      b'.region.view 0 (n - middle.length) = first ++ second := by
  have size : n = first.length + (middle.length + second.length) := by
    have lengths := congrArg List.length text
    simpa [Bytes.view] using lengths
  obtain ⟨b', copied, retyped, region⟩ := shaped.copyText_spec
    (first.length + middle.length) n first.length (by omega) room
    (by omega)
  refine ⟨b', copied, retyped, ?_⟩
  rw [region]
  exact view_closed text

end Texts

structure Grown (b b' : Buffer) : Prop where
  shaped : b'.Shaped
  textCap : b.textCap ≤ b'.textCap
  indexCap : b.indexCap ≤ b'.indexCap
  count : b'.count = b.count
  used : b'.used = b.used
  get : ∀ i, i < b.textCap → b'.region.get i = b.region.get i
  entry : ∀ row, row < b.indexCap → b'.entry row = b.entry row

theorem Grown.refl (shaped : b.Shaped) : Grown b b :=
  ⟨shaped, le_rfl, le_rfl, rfl, rfl, fun _ _ => rfl, fun _ _ => rfl⟩

theorem Grown.view (grown : Grown b b') (inside : n ≤ b.textCap) :
    b'.region.view 0 n = b.region.view 0 n := by
  apply List.ext_getElem?
  intro i
  rw [getElem?_view, getElem?_view]
  by_cases before : i < n
  · rw [if_pos before, if_pos before, zero_add, grown.get i (by omega)]
  · rw [if_neg before, if_neg before]

/-- The call goes through: with room, it leaves what is asked for; without, what there was. -/
def Ensures (b : Buffer) (r : Option (Bool × Buffer)) (enough : Buffer → Prop) : Prop :=
  ∃ ok b', r = some (ok, b') ∧ Grown b b' ∧ (ok = true → enough b')

section Growth

variable (shaped : b.Shaped)
include shaped

theorem Shaped.regrow_spec (reaches : Reaches) (textCap indexCap : Nat)
    (text : b.textCap ≤ textCap) (index : b.indexCap ≤ indexCap) (aligned : textCap % word = 0) :
    b.Ensures (b.regrow reaches textCap indexCap) fun b' =>
      b'.textCap = textCap ∧ b'.indexCap = indexCap := by
  have size : word = 8 := rfl
  have split := shaped.split
  unfold Split at split
  unfold regrow
  rcases growTo_cases reaches b.region (textCap + indexCap * word) with
    refused | ⟨bigger, granted, more, small, len, old⟩
  · rw [refused]
    exact ⟨false, b, rfl, .refl shaped, fun done => by cases done⟩
  rw [granted]
  rw [size] at split more len small
  rw [size]
  have room : b.indexCap * 8 ≤ indexCap * 8 := by omega
  have fits : ∀ d : Bytes, d.len = bigger.len →
      Shaped ⟨d, textCap, indexCap, b.count, b.used⟩ := by
    intro d same
    refine ⟨⟨?_, aligned⟩, ?_⟩
    · exact le_of_eq (len.symm.trans same.symm)
    · exact le_trans (le_of_eq (same.trans len)) small
  by_cases moves : textCap ≠ b.textCap
  · -- The index goes up by as much as the text has grown.
    dsimp only
    rw [if_pos moves, copyWithin_of_le (by omega) (by omega) (by omega) (le_rfl)]
    refine ⟨true, _, rfl, ⟨fits _ rfl, text, index, rfl, rfl, ?_, ?_⟩, fun _ => ⟨rfl, rfl⟩⟩
    · intro i inside
      have before : (bigger.put textCap (b.textCap + b.indexCap * 8 - b.textCap) fun k =>
          bigger.get (b.textCap + k)).get i = bigger.get i :=
        Bytes.get_put_outside _ (by omega)
      exact before.trans (old i (by omega))
    · intro row inside
      apply u64_congr
      intro k few
      rw [size]
      dsimp only
      rw [Bytes.get_put_inside _ (by omega) (by omega), ← old _ (by omega)]
      congr 1
      omega
  · have still : textCap = b.textCap := by omega
    dsimp only
    rw [if_neg moves]
    refine ⟨true, _, rfl, ⟨fits _ rfl, text, index, rfl, rfl, ?_, ?_⟩, fun _ => ⟨rfl, rfl⟩⟩
    · intro i inside
      exact old i (by omega)
    · intro row inside
      apply u64_congr
      intro k few
      rw [size]
      dsimp only
      rw [still, old _ (by omega)]

theorem Shaped.ensureText_spec (reaches : Reaches) (needed : Nat) :
    b.Ensures (b.ensureText reaches needed) fun b' => needed ≤ b'.textCap := by
  unfold ensureText
  split
  case isTrue enough => exact ⟨true, b, rfl, .refl shaped, fun _ => enough⟩
  case isFalse few =>
    have want := roundUpWord_spec
    have step : 0 < textStep := by decide
    generalize asked : (if b.textCap + textStep < needed then needed else b.textCap + textStep) = n
    have more : needed ≤ n ∧ b.textCap ≤ n := by
      rw [← asked]
      split <;> omega
    obtain ⟨ok, b', done, grown, caps⟩ := shaped.regrow_spec reaches
      (roundUpWord n) b.indexCap (more.2.trans (want n).1)
      (le_rfl) (want n).2
    refine ⟨ok, b', done, grown, ?_⟩
    intro granted
    rw [(caps granted).1]
    exact more.1.trans (want n).1

theorem Shaped.ensureIndex_spec (reaches : Reaches) (slots : Nat) :
    b.Ensures (b.ensureIndex reaches slots) fun b' =>
      slots ≤ b'.indexCap ∧ b'.textCap = b.textCap := by
  unfold ensureIndex
  split
  case isTrue enough => exact ⟨true, b, rfl, .refl shaped, fun _ => ⟨enough, rfl⟩⟩
  case isFalse few =>
    have step : 0 < indexStep := by decide
    generalize asked : (if b.indexCap + indexStep < slots then slots
      else b.indexCap + indexStep) = n
    have more : slots ≤ n ∧ b.indexCap ≤ n := by
      rw [← asked]
      split <;> omega
    obtain ⟨ok, b', done, grown, caps⟩ := shaped.regrow_spec reaches
      b.textCap n (le_rfl) more.2 shaped.split.2
    refine ⟨ok, b', done, grown, ?_⟩
    intro granted
    obtain ⟨textCap, indexCap⟩ := caps granted
    exact ⟨indexCap ▸ more.1, textCap⟩

end Growth

end Buffer

end Zaytos.Zi
