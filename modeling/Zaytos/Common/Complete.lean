import Zaytos.Lib.CommonPrefix
import Mathlib.Data.List.DropRight

set_option autoImplicit false

/-! What the completion of words decides from bytes alone (`common/src/complete.rs`). -/
namespace Zaytos.Common

open CommonPrefix (ofTwo)

/-- `b' '`. -/
abbrev blank : UInt8 := 0x20

/-- `b'/'`. -/
abbrev slash : UInt8 := 0x2F

def commonPrefixLen : List UInt8 → List UInt8 → Nat
  | x :: a, y :: b => if x = y then commonPrefixLen a b + 1 else 0
  | _, _ => 0

def startsWith (name part : List UInt8) : Bool :=
  decide (part.length ≤ name.length) && name.take part.length == part

/-- The word to complete: its place in the line, and whether it is the first one. -/
structure Word where
  start : Nat
  stop : Nat
  first : Bool
  deriving DecidableEq

/-- The loop of `word_at_cursor`: back to a blank, or to the start of the line. -/
def wordStart (line : List UInt8) : Nat → Nat
  | 0 => 0
  | start + 1 => if (line)[start]? ≠ some blank then wordStart line start else start + 1

def wordAtCursor (line : List UInt8) (cursor : Nat) : Word :=
  let stop := min cursor line.length
  let start := wordStart line stop
  ⟨start, stop, !(line.take start).any (fun byte => byte != blank)⟩

def rposition (word : List UInt8) (kind : UInt8 → Bool) : Option Nat :=
  (word.reverse.findIdx? kind).map fun behind => word.length - 1 - behind

def splitPath (word : List UInt8) : List UInt8 × List UInt8 :=
  match rposition word (· == slash) with
  | some place => (word.take (place + 1), word.drop (place + 1))
  | none => ([], word)

theorem take_commonPrefixLen (a b : List UInt8) : a.take (commonPrefixLen a b) = ofTwo a b := by
  induction a generalizing b with
  | nil =>
    rw [List.take_nil, ofTwo]
    intro x xs y ys same
    cases same
  | cons x a ih =>
    cases b with
    | nil =>
      rw [ofTwo]
      · rfl
      · intro z zs y ys _ same
        cases same
    | cons y b =>
      rw [commonPrefixLen, ofTwo]
      by_cases same : x = y
      · rw [if_pos same, if_pos same, List.take_succ_cons, ih]
      · rw [if_neg same, if_neg same, List.take_zero]

theorem startsWith_iff {name part : List UInt8} : startsWith name part = true ↔ part <+: name := by
  rw [startsWith, Bool.and_eq_true, decide_eq_true_eq, beq_iff_eq]
  constructor
  · intro both
    exact List.prefix_iff_eq_take.mpr both.2.symm
  · intro starts
    exact ⟨starts.length_le, (List.prefix_iff_eq_take.mp starts).symm⟩

section

variable {before behind : List UInt8}

def lastWord (before : List UInt8) : List UInt8 := before.rtakeWhile (· != blank)

def onlyWord (before : List UInt8) : Bool := (before.rdropWhile (· != blank)).all (· == blank)

theorem wordStart_eq (before behind : List UInt8) :
    wordStart (before ++ behind) before.length =
      (before.rdropWhile (· != blank)).length := by
  induction before using List.reverseRecOn generalizing behind with
  | nil => rfl
  | append_singleton before byte ih =>
    have place : (before ++ [byte] ++ behind)[before.length]? = some byte := by simp
    rw [List.length_append, List.length_singleton, wordStart, place]
    by_cases same : byte = blank
    · rw [if_neg (by simp [same]), List.rdropWhile_concat_neg _ _ _ (by simp [same])]
      simp
    · rw [if_pos (by simp [same]), List.rdropWhile_concat_pos _ _ _ (by simp [same]),
        List.append_assoc]
      exact ih ([byte] ++ behind)

theorem wordAtCursor_eq (before behind : List UInt8) :
    wordAtCursor (before ++ behind) before.length =
      ⟨before.length - (lastWord before).length, before.length, onlyWord before⟩ := by
  have parts : (before.rdropWhile (· != blank)) ++ lastWord before = before :=
    List.rdropWhile_append_rtakeWhile
  have lengths := congrArg List.length parts
  rw [List.length_append] at lengths
  have stop : min before.length (before ++ behind).length = before.length := by simp
  have front : (before ++ behind).take (before.rdropWhile (· != blank)).length =
      before.rdropWhile (· != blank) := by
    rw [List.take_append_of_le_length (by omega)]
    nth_rewrite 2 [← parts]
    rw [List.take_left]
  rw [wordAtCursor, stop, wordStart_eq, front, onlyWord, Word.mk.injEq]
  refine ⟨by omega, rfl, ?_⟩
  rw [List.not_any_eq_all_not]
  congr 1
  funext byte
  exact Bool.not_not _

def directoryPart (word : List UInt8) : List UInt8 := word.rdropWhile (· != slash)

def namePart (word : List UInt8) : List UInt8 := word.rtakeWhile (· != slash)

theorem rposition_concat (word : List UInt8) (byte : UInt8) (kind : UInt8 → Bool) :
    rposition (word ++ [byte]) kind =
      if kind byte = true then some word.length else rposition word kind := by
  rw [rposition, List.reverse_append, List.reverse_singleton, List.singleton_append,
    List.findIdx?_cons]
  by_cases found : kind byte = true
  · simp [found]
  · rw [if_neg found, if_neg found, rposition, Option.map_map]
    congr 1
    funext behind
    simp
    omega

theorem rposition_lt {word : List UInt8} {kind : UInt8 → Bool} {place : Nat}
    (found : rposition word kind = some place) : place < word.length := by
  induction word using List.reverseRecOn with
  | nil => cases found
  | append_singleton word byte ih =>
    rw [rposition_concat] at found
    rw [List.length_append, List.length_singleton]
    by_cases here : kind byte = true
    · rw [if_pos here] at found
      cases found
      exact Nat.lt_succ_self _
    · rw [if_neg here] at found
      exact Nat.lt_succ_of_lt (ih found)

theorem splitPath_eq (word : List UInt8) : splitPath word = (directoryPart word, namePart word) := by
  induction word using List.reverseRecOn with
  | nil => rfl
  | append_singleton word byte ih =>
    rw [splitPath, rposition_concat]
    by_cases same : byte = slash
    · rw [directoryPart, namePart, List.rdropWhile_concat_neg _ _ _ (by simp [same]),
        List.rtakeWhile_concat_neg _ _ _ (by simp [same]), if_pos (by simp [same])]
      dsimp only
      rw [List.take_of_length_le (by simp), List.drop_of_length_le (by simp)]
    · rw [directoryPart, namePart, List.rdropWhile_concat_pos _ _ _ (by simp [same]),
        List.rtakeWhile_concat_pos _ _ _ (by simp [same]), if_neg (by simp [same])]
      rw [splitPath, directoryPart, namePart] at ih
      cases found : rposition word (· == slash) with
      | none =>
        rw [found] at ih
        dsimp only at ih ⊢
        rw [Prod.mk.injEq] at ih ⊢
        exact ⟨ih.1, ih.2 ▸ rfl⟩
      | some place =>
        rw [found] at ih
        have inside := rposition_lt found
        dsimp only at ih ⊢
        rw [Prod.mk.injEq] at ih ⊢
        rw [List.take_append_of_le_length inside, List.drop_append_of_le_length inside]
        exact ⟨ih.1, ih.2 ▸ rfl⟩

theorem directoryPart_append_namePart (word : List UInt8) :
    directoryPart word ++ namePart word = word :=
  List.rdropWhile_append_rtakeWhile

end

end Zaytos.Common
