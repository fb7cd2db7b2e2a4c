import Zaytos.Lib.Bytes
import Zaytos.Lib.Checked
import Zaytos.Lib.Exec

set_option autoImplicit false

/-! The initial stack of a process: the strings of `argv` and `envp` at the upper end of the page,
and below them the table that the entry point reads. -/
namespace Zaytos.Loader

abbrev word : Nat := 8

/-- `argc`, the end of `argv`, the end of `envp` and the pair `AT_NULL`. -/
abbrev fixedWords : Nat := 1 + 1 + 1 + 2

abbrev atNull : Nat := 0

/-- `page[at..at + bytes.len()].copy_from_slice(bytes)`. -/
def copyInto (at' : Nat) (bytes : List UInt8) : Exec Bytes Unit Unit := fun page =>
  if at' + bytes.length ≤ page.len then
    .ok () (page.put at' bytes.length fun k => bytes.getD k 0)
  else .fault

/-- `put`. -/
def putWord (at' value : Nat) : Exec Bytes Unit Unit := fun page =>
  if at' + word ≤ page.len then .ok () (page.putU64 at' value) else .fault

def packStrings (cursor : Nat) : List (List UInt8) → Exec Bytes Unit Nat
  | [] => pure cursor
  | item :: rest =>
    match sub cursor (item.length + 1) with
    | none => Exec.fail ()
    | some cursor => do
      copyInto cursor item
      copyInto (cursor + item.length) [0]
      packStrings cursor rest

/-- The strings are gone through once more, and the address of each is put in the table. The
positions behind the last word and of the last string are given back. -/
def putPointers (pageBase at' stringAt : Nat) : List (List UInt8) → Exec Bytes Unit (Nat × Nat)
  | [] => pure (at', stringAt)
  | item :: rest => do
    let stringAt ← liftM (sub stringAt (item.length + 1))
    let address ← liftM (add64 pageBase stringAt)
    putWord at' address
    putPointers pageBase (at' + word) stringAt rest

/-- The table, from a position on. The address of the position is given back. -/
def putTable (pageBase cursor : Nat) (argv envp : List (List UInt8)) : Exec Bytes Unit Nat :=
  fun page => (do
    putWord cursor argv.length
    let afterArgv ← putPointers pageBase (cursor + word) page.len argv
    putWord afterArgv.1 0
    let afterEnvp ← putPointers pageBase (afterArgv.1 + word) afterArgv.2 envp
    putWord afterEnvp.1 0
    putWord (afterEnvp.1 + word) atNull
    putWord (afterEnvp.1 + word + word) 0
    liftM (add64 pageBase cursor)) page

/-- `build_initial_stack`. A refusal is `None`. -/
def buildInitialStack (pageBase : Nat) (argv envp : List (List UInt8)) : Exec Bytes Unit Nat :=
  fun page => (do
    let cursor ← packStrings page.len (argv ++ envp)
    let cursor := cursor - cursor % 16
    match sub cursor ((fixedWords + argv.length + envp.length) * word) with
    | none => Exec.fail ()
    | some cursor => putTable pageBase (cursor - cursor % 16) argv envp) page

/-! What the entry point reads. -/

def textAt (page : Bytes) : Nat → Nat → Option (List UInt8)
  | 0, _ => none
  | fuel + 1, at' => do
    let byte ← page.readU8 at'
    if byte = 0 then some []
    else
      let rest ← textAt page fuel (at' + 1)
      some (byte :: rest)

/-- The strings that the pointers from a position up to the first NULL point to, and the position
behind the NULL. -/
def textsAt (page : Bytes) (pageBase : Nat) : Nat → Nat → Option (List (List UInt8) × Nat)
  | 0, _ => none
  | fuel + 1, at' => do
    let pointer ← page.readU64 at'
    if pointer = 0 then some ([], at' + word)
    else
      let offset ← sub pointer pageBase
      let text ← textAt page page.len offset
      let rest ← textsAt page pageBase fuel (at' + word)
      some (text :: rest.1, rest.2)

/-- The page, read from an address as `argc`, `argv`, `envp` and an `auxv` that is empty. -/
def decodeStack (page : Bytes) (pageBase sp : Nat) :
    Option (Nat × List (List UInt8) × List (List UInt8)) := do
  let at' ← sub sp pageBase
  let argc ← page.readU64 at'
  let argv ← textsAt page pageBase page.len (at' + word)
  let envp ← textsAt page pageBase page.len argv.2
  let kind ← page.readU64 envp.2
  let value ← page.readU64 (envp.2 + word)
  if kind = atNull ∧ value = 0 then some (argc, argv.1, envp.1) else none

/-! The layout. -/

def textSize (items : List (List UInt8)) : Nat := (items.map fun item => item.length + 1).sum

def tableSize (argv envp : List (List UInt8)) : Nat :=
  (fixedWords + argv.length + envp.length) * word

def tableAt (len : Nat) (argv envp : List (List UInt8)) : Nat :=
  ((len - textSize (argv ++ envp)) / 16 * 16 - tableSize argv envp) / 16 * 16

/-- The strings and, from a multiple of 16 on, the table below them fit in the page. -/
structure StackFits (len : Nat) (argv envp : List (List UInt8)) : Prop where
  strings : textSize (argv ++ envp) ≤ len
  table : tableSize argv envp ≤ (len - textSize (argv ++ envp)) / 16 * 16

def HasText (page : Bytes) (at' : Nat) (item : List UInt8) : Prop :=
  page.view at' item.length = item ∧ page.get (at' + item.length) = 0

/-- The strings lie one below the other, the first one right below the position. -/
def HasTexts (page : Bytes) : Nat → List (List UInt8) → Prop
  | _, [] => True
  | stringAt, item :: rest =>
    HasText page (stringAt - (item.length + 1)) item ∧
      HasTexts page (stringAt - (item.length + 1)) rest

def HasPointers (page : Bytes) (pageBase : Nat) : Nat → Nat → List (List UInt8) → Prop
  | _, _, [] => True
  | at', stringAt, item :: rest =>
    page.u64 at' = pageBase + (stringAt - (item.length + 1)) ∧
      HasPointers page pageBase (at' + word) (stringAt - (item.length + 1)) rest

/-- Only bytes from `lo` up to `hi` were written. -/
structure Wrote (page page' : Bytes) (lo hi : Nat) : Prop where
  len : page'.len = page.len
  below : Bytes.SameOn page page' 0 lo
  above : ∀ n, Bytes.SameOn page page' hi n

section Frames

variable {page page' page'' : Bytes} {lo mid hi at' stringAt pageBase : Nat}
  {item : List UInt8} {items : List (List UInt8)}

theorem Wrote.refl (page : Bytes) (lo : Nat) : Wrote page page lo lo :=
  ⟨rfl, Bytes.SameOn.refl _ _ _, fun _ => Bytes.SameOn.refl _ _ _⟩

theorem Wrote.mono (wrote : Wrote page page' at' mid) (lower : lo ≤ at') (upper : mid ≤ hi) :
    Wrote page page' lo hi := by
  constructor
  · exact wrote.len
  · exact wrote.below.mono (Nat.le_refl 0) (by omega)
  · intro n
    exact (wrote.above (hi - mid + n)).mono upper (by omega)

theorem Wrote.trans (first : Wrote page page' lo hi) (second : Wrote page' page'' lo hi) :
    Wrote page page'' lo hi := by
  constructor
  · exact second.len.trans first.len
  · exact first.below.trans second.below
  · intro n
    exact (first.above n).trans (second.above n)

theorem Wrote.sameOn {n : Nat} (wrote : Wrote page page' lo hi)
    (apart : at' + n ≤ lo ∨ hi ≤ at') : Bytes.SameOn page page' at' n := by
  cases apart with
  | inl before => exact wrote.below.mono (Nat.zero_le _) (by omega)
  | inr behind => exact (wrote.above (at' - hi + n)).mono behind (by omega)

theorem wrote_put (page : Bytes) (at' n : Nat) (f : Nat → UInt8) :
    Wrote page (page.put at' n f) at' (at' + n) := by
  constructor
  · rfl
  · exact Bytes.put_sameOn f (Or.inl (by omega))
  · intro m
    exact Bytes.put_sameOn f (Or.inr (Nat.le_refl _))

theorem Wrote.word_eq {value : Nat} (wrote : Wrote (page.putU64 at' value) page' (at' + 8) hi)
    (small : value < 2 ^ 64) : page'.u64 at' = value := by
  rw [(wrote.sameOn (Or.inl (Nat.le_refl _))).u64 (Nat.le_refl _) (Nat.le_refl _),
    Bytes.u64_putU64, Nat.mod_eq_of_lt small]

theorem HasText.of_same (text : HasText page at' item)
    (same : Bytes.SameOn page page' at' (item.length + 1)) : HasText page' at' item := by
  constructor
  · rw [same.view (Nat.le_refl _) (by omega)]
    exact text.1
  · rw [same _ (by omega) (by omega)]
    exact text.2

@[simp] theorem textSize_nil : textSize [] = 0 := rfl

@[simp] theorem textSize_cons (item : List UInt8) (items : List (List UInt8)) :
    textSize (item :: items) = item.length + 1 + textSize items := rfl

@[simp] theorem textSize_append (first second : List (List UInt8)) :
    textSize (first ++ second) = textSize first + textSize second := by
  simp [textSize]

theorem length_le_textSize (items : List (List UInt8)) : items.length ≤ textSize items := by
  induction items with
  | nil => exact Nat.le_refl 0
  | cons item rest ih =>
    simp only [List.length_cons, textSize_cons]
    omega

theorem HasTexts.of_same (texts : HasTexts page stringAt items) (fits : textSize items ≤ stringAt)
    (same : Bytes.SameOn page page' (stringAt - textSize items) (textSize items)) :
    HasTexts page' stringAt items := by
  induction items generalizing stringAt with
  | nil => trivial
  | cons item rest ih =>
    rw [textSize_cons] at fits same
    constructor
    · exact texts.1.of_same (same.mono (by omega) (by omega))
    · exact ih texts.2 (by omega) (same.mono (by omega) (by omega))

theorem HasPointers.of_same (pointers : HasPointers page pageBase at' stringAt items)
    (same : Bytes.SameOn page page' at' (items.length * 8)) :
    HasPointers page' pageBase at' stringAt items := by
  induction items generalizing at' stringAt with
  | nil => trivial
  | cons item rest ih =>
    rw [List.length_cons, Nat.succ_mul] at same
    constructor
    · rw [same.u64 (Nat.le_refl _) (by omega)]
      exact pointers.1
    · exact ih pointers.2 (same.mono (Nat.le_add_right _ _) (by show at' + 8 + _ ≤ _; omega))

theorem hasTexts_append {first second : List (List UInt8)} :
    HasTexts page stringAt (first ++ second) ↔
      HasTexts page stringAt first ∧ HasTexts page (stringAt - textSize first) second := by
  induction first generalizing stringAt with
  | nil => simp [HasTexts]
  | cons item rest ih =>
    rw [List.cons_append, HasTexts, HasTexts, ih, textSize_cons, Nat.sub_sub, and_assoc]

end Frames

/-! The two passes. -/

section Passes

variable {page : Bytes} {at' cursor stringAt pageBase : Nat}

@[simp] theorem wp_copyInto (bytes : List UInt8) (Q : Unit → Bytes → Prop)
    (E : Unit → Bytes → Prop) : (copyInto at' bytes).Wp page Q E ↔
      at' + bytes.length ≤ page.len ∧
        Q () (page.put at' bytes.length fun k => bytes.getD k 0) := by
  by_cases inside : at' + bytes.length ≤ page.len <;> simp [Exec.Wp, copyInto, inside]

@[simp] theorem wp_putWord (value : Nat) (Q : Unit → Bytes → Prop) (E : Unit → Bytes → Prop) :
    (putWord at' value).Wp page Q E ↔ at' + word ≤ page.len ∧ Q () (page.putU64 at' value) := by
  by_cases inside : at' + word ≤ page.len <;> simp [Exec.Wp, putWord, inside]

/-- The first pass stops at the string that does not fit any more, and writes nothing above the
position it starts from. -/
theorem packStrings_wp (items : List (List UInt8)) (inside : cursor ≤ page.len) :
    (packStrings cursor items).Wp page
      (fun bottom page' => textSize items ≤ cursor ∧ bottom = cursor - textSize items ∧
        HasTexts page' cursor items ∧ Wrote page page' bottom cursor)
      (fun _ _ => cursor < textSize items) := by
  induction items generalizing cursor page with
  | nil =>
    rw [packStrings, Exec.wp_pure]
    exact ⟨Nat.zero_le _, rfl, trivial, Wrote.refl page cursor⟩
  | cons item rest ih =>
    rw [packStrings, textSize_cons]
    by_cases room : item.length + 1 ≤ cursor
    · rw [sub_of_le room]
      dsimp only
      rw [Exec.wp_bind, wp_copyInto]
      apply And.intro (by omega)
      rw [Exec.wp_bind, wp_copyInto, Bytes.len_put, List.length_singleton]
      apply And.intro (by omega)
      have text := Bytes.view_put_list page (cursor - (item.length + 1)) item
      have wrote : Wrote page _ (cursor - (item.length + 1)) cursor :=
        ((wrote_put page (cursor - (item.length + 1)) item.length fun k => item.getD k 0).mono
          (Nat.le_refl _) (by omega)).trans
        ((wrote_put _ (cursor - (item.length + 1) + item.length) 1 fun k =>
          [(0 : UInt8)].getD k 0).mono (Nat.le_add_right _ _) (by omega))
      have below : cursor - (item.length + 1) ≤ page.len := by omega
      apply (ih (wrote.len.symm ▸ below)).mono
      · intro bottom page' _ packed
        have bound : bottom = cursor - (item.length + 1) - textSize rest := packed.2.1
        have start : bottom ≤ cursor - (item.length + 1) := by omega
        refine ⟨by omega, by omega, ⟨?_, packed.2.2.1⟩, ?_⟩
        · apply HasText.of_same _ (packed.2.2.2.sameOn (Or.inr (Nat.le_refl _)))
          constructor
          · rw [Bytes.view_put_outside _ (Or.inl (Nat.le_refl _))]
            exact text
          · rw [Bytes.get_put_inside _ (Nat.le_refl _) (by omega), Nat.sub_self]
            rfl
        · exact (wrote.mono start (Nat.le_refl _)).trans
            (packed.2.2.2.mono (Nat.le_refl _) (by omega))
      · intro _ _ _ short
        omega
    · rw [sub, if_neg room, Exec.wp_fail]
      omega

theorem putPointers_wp (items : List (List UInt8)) (fits : textSize items ≤ stringAt)
    (room : at' + items.length * 8 ≤ page.len) (small : pageBase + stringAt ≤ 2 ^ 64) :
    (putPointers pageBase at' stringAt items).Wp page
      (fun past page' => past = (at' + items.length * 8, stringAt - textSize items) ∧
        HasPointers page' pageBase at' stringAt items ∧
        Wrote page page' at' (at' + items.length * 8))
      (fun _ _ => False) := by
  induction items generalizing at' stringAt page with
  | nil =>
    rw [putPointers, Exec.wp_pure]
    exact ⟨rfl, trivial, Wrote.refl page at'⟩
  | cons item rest ih =>
    rw [textSize_cons] at fits ⊢
    rw [List.length_cons] at room ⊢
    have down : sub stringAt (item.length + 1) = some (stringAt - (item.length + 1)) :=
      sub_of_le (by omega)
    have address : add64 pageBase (stringAt - (item.length + 1)) =
        some (pageBase + (stringAt - (item.length + 1))) := add64_of_lt (by omega)
    rw [putPointers]
    simp only [down, address, Exec.wp_bind, Exec.wp_lift, Option.some.injEq, exists_eq_left',
      wp_putWord]
    apply And.intro (show at' + 8 ≤ page.len by omega)
    have wrote := wrote_put page at' 8 (leByte (pageBase + (stringAt - (item.length + 1))))
    apply (@ih (page.putU64 at' _) (at' + 8) (stringAt - (item.length + 1)) (by omega)
      (show _ ≤ page.len by omega) (by omega)).mono
    · intro past page' _ rest'
      refine ⟨?_, ⟨?_, rest'.2.1⟩, ?_⟩
      · rw [rest'.1, Prod.mk.injEq]
        constructor <;> omega
      · exact rest'.2.2.word_eq (by omega)
      · exact (wrote.mono (Nat.le_refl _) (by omega)).trans
          (rest'.2.2.mono (Nat.le_add_right _ _) (by omega))
    · intro _ _ _ stop
      exact stop

structure Filled (page : Bytes) (pageBase at' : Nat) (argv envp : List (List UInt8)) : Prop where
  count : page.u64 at' = argv.length
  argvPointers : HasPointers page pageBase (at' + 8) page.len argv
  argvEnd : page.u64 (at' + 8 + argv.length * 8) = 0
  envpPointers :
    HasPointers page pageBase (at' + 8 + argv.length * 8 + 8) (page.len - textSize argv) envp
  envpEnd : page.u64 (at' + 8 + argv.length * 8 + 8 + envp.length * 8) = 0
  kind : page.u64 (at' + 8 + argv.length * 8 + 8 + envp.length * 8 + 8) = 0
  value : page.u64 (at' + 8 + argv.length * 8 + 8 + envp.length * 8 + 8 + 8) = 0
  argvTexts : HasTexts page page.len argv
  envpTexts : HasTexts page (page.len - textSize argv) envp

theorem tableSize_eq (argv envp : List (List UInt8)) :
    tableSize argv envp = 40 + argv.length * 8 + envp.length * 8 := by
  show (5 + argv.length + envp.length) * 8 = _
  omega

theorem putTable_wp {argv envp : List (List UInt8)}
    (texts : HasTexts page page.len (argv ++ envp)) (strings : textSize (argv ++ envp) ≤ page.len)
    (room : cursor + tableSize argv envp ≤ page.len - textSize (argv ++ envp))
    (addressable : pageBase + page.len ≤ 2 ^ 64) :
    (putTable pageBase cursor argv envp).Wp page
      (fun sp page' => sp = pageBase + cursor ∧ page'.len = page.len ∧
        Filled page' pageBase cursor argv envp)
      (fun _ _ => False) := by
  rw [tableSize_eq] at room
  rw [textSize_append] at room strings
  have split := hasTexts_append.mp texts
  have counts := length_le_textSize argv
  show Exec.Wp (putWord cursor argv.length >>= _) page _ _
  rw [Exec.wp_bind, wp_putWord]
  apply And.intro (show cursor + 8 ≤ page.len by omega)
  have w1 := wrote_put page cursor 8 (leByte argv.length)
  have first := @putPointers_wp (page.putU64 cursor argv.length) (cursor + 8) page.len pageBase argv
    (by omega) (show cursor + 8 + _ ≤ page.len by omega) addressable
  rw [Exec.wp_bind]
  apply first.mono
  · intro afterArgv page2 _ first
    have w2 := first.2.2
    have len2 : page2.len = page.len := w2.len
    rw [first.1, Exec.wp_bind, wp_putWord]
    apply And.intro (show cursor + 8 + argv.length * 8 + 8 ≤ page2.len by omega)
    have w3 := wrote_put page2 (cursor + 8 + argv.length * 8) 8 (leByte 0)
    have second := @putPointers_wp (page2.putU64 (cursor + 8 + argv.length * 8) 0)
      (cursor + 8 + argv.length * 8 + 8) (page.len - textSize argv) pageBase envp (by omega)
      (show cursor + 8 + argv.length * 8 + 8 + _ ≤ page2.len by omega) (by omega)
    rw [Exec.wp_bind]
    apply second.mono
    · intro afterEnvp page4 _ second
      have w4 := second.2.2
      have len4 : page4.len = page2.len := w4.len
      rw [second.1]
      simp only [Exec.wp_bind, wp_putWord, Exec.wp_lift]
      generalize ends : cursor + 8 + argv.length * 8 + 8 + envp.length * 8 = last at *
      have w5 := wrote_put page4 last 8 (leByte 0)
      have w6 := wrote_put (page4.putU64 last 0) (last + 8) 8 (leByte 0)
      have w7 := wrote_put ((page4.putU64 last 0).putU64 (last + 8) 0) (last + 8 + 8) 8 (leByte 0)
      -- What was written from each of the words on.
      have f6 := (w6.mono (Nat.le_refl _) (Nat.le_add_right _ 8)).trans
        (w7.mono (by omega) (Nat.le_refl _))
      have f5 := (w5.mono (Nat.le_refl _) (by omega)).trans (f6.mono (by omega) (Nat.le_refl _))
      have f4 := (w4.mono (Nat.le_refl _) (by omega)).trans (f5.mono (by omega) (Nat.le_refl _))
      have f3 := (w3.mono (Nat.le_refl _) (by omega)).trans (f4.mono (by omega) (Nat.le_refl _))
      have f2 := (w2.mono (Nat.le_refl _) (by omega)).trans (f3.mono (by omega) (Nat.le_refl _))
      have f1 := (w1.mono (Nat.le_refl _) (by omega)).trans (f2.mono (by omega) (Nat.le_refl _))
      have len7 : page4.len = page.len := f1.len
      refine ⟨show last + 8 ≤ page4.len by omega, show last + 8 + 8 ≤ page4.len by omega,
        show last + 8 + 8 + 8 ≤ page4.len by omega, _, add64_of_lt (by omega), rfl, len7, ?_⟩
      constructor
      · exact f2.word_eq (by omega)
      · show HasPointers _ pageBase (cursor + 8) page4.len argv
        rw [len7]
        exact first.2.1.of_same (f3.sameOn (Or.inl (Nat.le_refl _)))
      · exact f4.word_eq (by omega)
      · show HasPointers _ pageBase (cursor + 8 + argv.length * 8 + 8)
          (page4.len - textSize argv) envp
        rw [len7]
        exact second.2.1.of_same (f5.sameOn (Or.inl (by omega)))
      · rw [ends]
        exact f6.word_eq (by omega)
      · rw [ends]
        exact w7.word_eq (by omega)
      · rw [ends]
        exact Bytes.u64_putU64 _ _ _
      · show HasTexts _ page4.len argv
        rw [len7]
        exact split.1.of_same (by omega) (f1.sameOn (Or.inr (by omega)))
      · show HasTexts _ (page4.len - textSize argv) envp
        rw [len7]
        exact split.2.of_same (by omega) (f1.sameOn (Or.inr (by omega)))
    · intro _ _ _ stop
      exact stop
  · intro _ _ _ stop
    exact stop

theorem StackFits.below {len : Nat} {argv envp : List (List UInt8)}
    (fits : StackFits len argv envp) :
    tableAt len argv envp + tableSize argv envp ≤ len - textSize (argv ++ envp) := by
  have table := fits.table
  rw [tableAt]
  omega

theorem buildInitialStack_wp (page : Bytes) (argv envp : List (List UInt8))
    (addressable : pageBase + page.len ≤ 2 ^ 64) :
    (buildInitialStack pageBase argv envp).Wp page
      (fun sp page' => StackFits page.len argv envp ∧
        sp = pageBase + tableAt page.len argv envp ∧ page'.len = page.len ∧
        Filled page' pageBase (tableAt page.len argv envp) argv envp)
      (fun _ _ => ¬ StackFits page.len argv envp) := by
  show Exec.Wp (packStrings page.len (argv ++ envp) >>= _) page _ _
  rw [Exec.wp_bind]
  apply (packStrings_wp (argv ++ envp) (Nat.le_refl page.len)).mono
  · intro cursor page0 _ packed
    have strings := packed.1
    have bottom : cursor = page.len - textSize (argv ++ envp) := packed.2.1
    have rounded : cursor - cursor % 16 =
        (page.len - textSize (argv ++ envp)) / 16 * 16 := by omega
    have size : tableSize argv envp = (fixedWords + argv.length + envp.length) * word := rfl
    dsimp only
    rw [rounded, ← size]
    by_cases table : tableSize argv envp ≤ (page.len - textSize (argv ++ envp)) / 16 * 16
    · have fits : StackFits page.len argv envp := ⟨strings, table⟩
      have len : page0.len = page.len := packed.2.2.2.len
      have below := fits.below
      have texts := packed.2.2.1
      rw [← len] at strings below texts addressable
      rw [sub_of_le table]
      dsimp only
      have place : (page.len - textSize (argv ++ envp)) / 16 * 16 - tableSize argv envp -
          ((page.len - textSize (argv ++ envp)) / 16 * 16 - tableSize argv envp) % 16 =
          tableAt page.len argv envp := by
        rw [tableAt]
        omega
      rw [place]
      rw [len] at below
      apply (putTable_wp texts strings (len.symm ▸ below) addressable).mono
      · intro sp page' _ filled
        exact ⟨fits, filled.1, filled.2.1.trans len, filled.2.2⟩
      · intro _ _ _ stop
        exact absurd stop id
    · rw [sub, if_neg table]
      exact fun fits => table fits.table
  · intro _ _ _ short fits
    have := fits.strings
    omega

end Passes

/-! What is read back. -/

section Reading

variable {page : Bytes} {pageBase at' stringAt : Nat}

theorem hasText_cons {byte : UInt8} {rest : List UInt8} (text : HasText page at' (byte :: rest)) :
    page.get at' = byte ∧ HasText page (at' + 1) rest := by
  have cut : page.view at' (rest.length + 1) =
      page.get at' :: page.view (at' + 1) rest.length := by
    simp only [Bytes.view, List.range_succ_eq_map, List.map_cons, List.map_map, Nat.add_zero]
    congr 2
    funext k
    exact congrArg page.get (by show at' + (k + 1) = _; omega)
  have whole := text.1
  rw [List.length_cons, cut, List.cons.injEq] at whole
  refine ⟨whole.1, whole.2, ?_⟩
  rw [show at' + 1 + rest.length = at' + (byte :: rest).length by
    rw [List.length_cons]
    omega]
  exact text.2

theorem textAt_eq {item : List UInt8} {fuel : Nat} (text : HasText page at' item)
    (inside : at' + item.length < page.len) (plain : 0 ∉ item) (enough : item.length < fuel) :
    textAt page fuel at' = some item := by
  induction item generalizing at' fuel with
  | nil =>
    cases fuel with
    | zero => exact absurd enough (Nat.not_lt_zero _)
    | succ fuel =>
      rw [textAt, Bytes.readU8_of_lt (show at' < page.len from inside)]
      exact if_pos text.2
  | cons byte rest ih =>
    cases fuel with
    | zero => exact absurd enough (Nat.not_lt_zero _)
    | succ fuel =>
      rw [List.length_cons] at inside enough
      have head := hasText_cons text
      have nonzero : byte ≠ 0 := fun zero => plain (zero ▸ List.mem_cons_self)
      have tail := ih head.2 (by omega) (fun mem => plain (List.mem_cons_of_mem _ mem))
        (Nat.lt_of_succ_lt_succ enough)
      rw [textAt, Bytes.readU8_of_lt (by omega), head.1]
      simp [nonzero, tail]

theorem textsAt_eq {items : List (List UInt8)} {fuel : Nat}
    (pointers : HasPointers page pageBase at' stringAt items)
    (texts : HasTexts page stringAt items) (fits : textSize items < stringAt)
    (inside : stringAt ≤ page.len) (room : at' + items.length * 8 + 8 ≤ page.len)
    (ends : page.u64 (at' + items.length * 8) = 0) (plain : ∀ item ∈ items, 0 ∉ item)
    (enough : items.length < fuel) :
    textsAt page pageBase fuel at' = some (items, at' + items.length * 8 + 8) := by
  induction items generalizing at' stringAt fuel with
  | nil =>
    cases fuel with
    | zero => exact absurd enough (Nat.not_lt_zero _)
    | succ fuel =>
      have null : page.u64 at' = 0 := ends
      rw [textsAt, Bytes.readU64_of_le (show at' + 8 ≤ page.len from room)]
      simp [null]
  | cons item rest ih =>
    cases fuel with
    | zero => exact absurd enough (Nat.not_lt_zero _)
    | succ fuel =>
      rw [textSize_cons] at fits
      rw [List.length_cons] at enough room ends
      have next : at' + (rest.length + 1) * 8 = at' + 8 + rest.length * 8 := by omega
      rw [next] at ends room
      have others := List.forall_mem_cons.mp plain
      have text := textAt_eq texts.1 (by omega) others.1 (show item.length < page.len by omega)
      have tail := @ih (at' + 8) (stringAt - (item.length + 1)) fuel pointers.2 texts.2 (by omega)
        (by omega) room ends others.2 (Nat.lt_of_succ_lt_succ enough)
      have nonzero : pageBase + (stringAt - (item.length + 1)) ≠ 0 := by omega
      have offset : sub (pageBase + (stringAt - (item.length + 1))) pageBase =
          some (stringAt - (item.length + 1)) := by
        rw [sub_of_le (Nat.le_add_right _ _), Nat.add_sub_cancel_left]
      rw [textsAt, Bytes.readU64_of_le (by omega), pointers.1, List.length_cons, next]
      simp only [Option.bind_eq_bind, Option.bind_some, if_neg nonzero, offset, text, tail]

theorem Filled.decodeStack {argv envp : List (List UInt8)}
    (filled : Filled page pageBase at' argv envp)
    (below : at' + tableSize argv envp ≤ page.len - textSize (argv ++ envp))
    (strings : textSize (argv ++ envp) ≤ page.len) (plain : ∀ item ∈ argv ++ envp, 0 ∉ item) :
    decodeStack page pageBase (pageBase + at') = some (argv.length, argv, envp) := by
  rw [tableSize_eq, textSize_append] at below
  rw [textSize_append] at strings
  have counts := length_le_textSize argv
  have counts' := length_le_textSize envp
  have plain := List.forall_mem_append.mp plain
  have first := @textsAt_eq page pageBase (at' + 8) page.len argv page.len filled.argvPointers
    filled.argvTexts (by omega) (Nat.le_refl _) (by omega) filled.argvEnd plain.1 (by omega)
  have second := @textsAt_eq page pageBase _ _ envp page.len filled.envpPointers filled.envpTexts
    (by omega) (by omega) (by omega) filled.envpEnd plain.2 (by omega)
  have position : sub (pageBase + at') pageBase = some at' := by
    rw [sub_of_le (Nat.le_add_right _ _), Nat.add_sub_cancel_left]
  have count := Bytes.readU64_of_le (show at' + 8 ≤ page.len by omega)
  have kind := Bytes.readU64_of_le (show at' + 8 + argv.length * 8 + 8 + envp.length * 8 + 8 + 8 ≤
    page.len by omega)
  have value := Bytes.readU64_of_le (show at' + 8 + argv.length * 8 + 8 + envp.length * 8 + 8 + 8 +
    8 ≤ page.len by omega)
  rw [filled.count] at count
  rw [filled.kind] at kind
  rw [filled.value] at value
  have value : page.readU64 (at' + 8 + argv.length * 8 + 8 + envp.length * 8 + 8 + word) = some 0 :=
    value
  simp only [Loader.decodeStack, Option.bind_eq_bind, Option.bind_some, position, count, first,
    second, kind, value, and_self, if_true]

end Reading

/-- A stack is built exactly when the strings and the table fit. Then the stack pointer is a
multiple of 16 inside the page, the table lies below all strings, and what the entry point reads
are the strings of `argv` and `envp`. -/
theorem stack_decodes {pageBase : Nat} {page : Bytes} {argv envp : List (List UInt8)}
    (aligned : 16 ∣ pageBase) (addressable : pageBase + page.len ≤ 2 ^ 64)
    (plain : ∀ item ∈ argv ++ envp, 0 ∉ item) :
    buildInitialStack pageBase argv envp page ≠ .fault ∧
    ((∃ sp page', buildInitialStack pageBase argv envp page = .ok sp page') ↔
      StackFits page.len argv envp) ∧
    ∀ sp page', buildInitialStack pageBase argv envp page = .ok sp page' →
      16 ∣ sp ∧ pageBase ≤ sp ∧ sp < pageBase + page.len ∧ page'.len = page.len ∧
      Filled page' pageBase (sp - pageBase) argv envp ∧
      sp + tableSize argv envp ≤ pageBase + (page.len - textSize (argv ++ envp)) ∧
      decodeStack page' pageBase sp = some (argv.length, argv, envp) := by
  have built := buildInitialStack_wp page argv envp addressable
  refine ⟨?_, ?_, ?_⟩
  · intro fault
    rw [Exec.Wp, fault] at built
    exact built
  · cases run : buildInitialStack pageBase argv envp page with
    | fault =>
      rw [Exec.Wp, run] at built
      exact built.elim
    | err e left =>
      rw [Exec.Wp, run] at built
      refine iff_of_false ?_ built
      intro found
      obtain ⟨sp, page', same⟩ := found
      cases same
    | ok sp left =>
      rw [Exec.Wp, run] at built
      exact iff_of_true ⟨sp, left, rfl⟩ built.1
  · intro sp page' run
    rw [Exec.Wp, run] at built
    have fits := built.1
    have below := fits.below
    have strings := fits.strings
    have size := tableSize_eq argv envp
    have filled := built.2.2.2
    have len : page'.len = page.len := built.2.2.1
    have place : sp = pageBase + tableAt page.len argv envp := built.2.1
    rw [place, Nat.add_sub_cancel_left]
    have inside : tableAt page.len argv envp < page.len := by omega
    refine ⟨?_, Nat.le_add_right _ _, by omega, len, filled, by omega, ?_⟩
    · exact Nat.dvd_add aligned (Nat.dvd_mul_left 16 _)
    · exact filled.decodeStack (len.symm ▸ below) (len.symm ▸ strings) plain

/-- Two arguments and a variable, in a page of 96 bytes. -/
theorem stack_decodes_page : ∃ sp page',
    buildInitialStack 4096 [[97], [98, 99]] [[88]] ⟨96, fun _ => 0⟩ = .ok sp page' ∧
      decodeStack page' 4096 sp = some (2, [[97], [98, 99]], [[88]]) := by
  have built := @stack_decodes 4096 ⟨96, fun _ => 0⟩ [[97], [98, 99]] [[88]] (by decide)
    (by decide) (by decide)
  apply Exists.elim (built.2.1.mpr ⟨by decide, by decide⟩)
  intro sp found
  apply Exists.elim found
  intro page' run
  exact ⟨sp, page', run, (built.2.2 sp page' run).2.2.2.2.2.2⟩

end Zaytos.Loader
