import Mathlib.Algebra.GroupWithZero.Nat
import Mathlib.Logic.Relation
import Zaytos.Terminal.Text

set_option autoImplicit false

/-! The decoder and the cutting of a string cut at the same places: both give `cut`, a recursion
over the bytes that are left. -/
namespace Zaytos.Terminal

variable {tail : List UInt8} {head : UInt8}

section Encoding

theorem charLength_ofNat {n : Nat} (byte : n < 256) :
    charLength (UInt8.ofNat n) =
      if n ≤ 0x7F then some 1
      else if 0xC2 ≤ n ∧ n ≤ 0xDF then some 2
      else if 0xE0 ≤ n ∧ n ≤ 0xEF then some 3
      else if 0xF0 ≤ n ∧ n ≤ 0xF4 then some 4
      else none := by
  have value : (UInt8.ofNat n).toNat = n := by simp; omega
  simp [charLength, UInt8.le_iff_toNat_le, value]

theorem charLength_pos {byte : UInt8} {need : Nat} (length : charLength byte = some need) :
    0 < need := by
  unfold charLength at length
  split_ifs at length <;> cases length <;> omega

theorem isContinuation_ofNat {n : Nat} (small : n < 64) :
    isContinuation (UInt8.ofNat (n + 0x80)) = true := by
  have value : (UInt8.ofNat (n + 0x80)).toNat = n + 0x80 := by simp; omega
  simp only [isContinuation, Bool.and_eq_true, decide_eq_true_eq, UInt8.le_iff_toNat_le, value,
    UInt8.reduceToNat]
  omega

theorem charLength_of_continuation {byte : UInt8} (continuation : isContinuation byte = true) :
    charLength byte = none := by
  simp only [isContinuation, Bool.and_eq_true, decide_eq_true_eq, UInt8.le_iff_toNat_le]
    at continuation
  have value : UInt8.ofNat byte.toNat = byte := UInt8.ofNat_toNat
  rw [← value, charLength_ofNat byte.toNat_lt]
  simp at continuation
  repeat rw [if_neg (by omega)]

/-- The bytes of a character: the first says how many they are, the others go on with it. -/
structure Encoded (c : Char) (head : UInt8) (tail : List UInt8) : Prop where
  bytes : String.utf8EncodeChar c = head :: tail
  length : charLength head = some (tail.length + 1)
  goesOn : ∀ byte ∈ tail, isContinuation byte = true

theorem exists_encoded (c : Char) : ∃ head tail, Encoded c head tail := by
  have range : c.val.toNat < 1114112 := by
    have valid := c.valid
    simp only [UInt32.isValidChar, Nat.isValidChar] at valid
    omega
  by_cases one : c.val.toNat ≤ 0x7F
  · apply Exists.intro
    apply Exists.intro []
    constructor
    · simp only [String.utf8EncodeChar, one, if_true]
      rfl
    · rw [charLength_ofNat (by omega), if_pos one]
      rfl
    · simp
  by_cases two : c.val.toNat ≤ 0x7FF
  · refine ⟨_, [_], by simp only [String.utf8EncodeChar, one, two, if_true, if_false]; rfl, ?_, ?_⟩
    · rw [charLength_ofNat (by omega), if_neg (by omega), if_pos (by omega)]
      rfl
    · intro byte mem
      rw [List.mem_singleton.mp mem]
      exact isContinuation_ofNat (by omega)
  by_cases three : c.val.toNat ≤ 0xFFFF
  · refine ⟨_, [_, _], by
      simp only [String.utf8EncodeChar, one, two, three, if_true, if_false]; rfl, ?_, ?_⟩
    · rw [charLength_ofNat (by omega), if_neg (by omega), if_neg (by omega), if_pos (by omega)]
      rfl
    · intro byte mem
      simp only [List.mem_cons, List.not_mem_nil, or_false] at mem
      rcases mem with rfl | rfl <;> exact isContinuation_ofNat (by omega)
  · refine ⟨_, [_, _, _], by
      simp only [String.utf8EncodeChar, one, two, three, if_false]; rfl, ?_, ?_⟩
    · rw [charLength_ofNat (by omega), if_neg (by omega), if_neg (by omega), if_neg (by omega),
        if_pos (by omega)]
      rfl
    · intro byte mem
      simp only [List.mem_cons, List.not_mem_nil, or_false] at mem
      rcases mem with rfl | rfl | rfl <;> exact isContinuation_ofNat (by omega)

theorem fromUtf8_encode (cs : List Char) :
    fromUtf8 (cs.flatMap String.utf8EncodeChar) = some cs := by
  have decoded := List.utf8Decode?_utf8Encode (l := cs)
  simp only [List.utf8Encode] at decoded
  simp [fromUtf8, decoded]

theorem eq_of_fromUtf8 {bytes : List UInt8} {cs : List Char} (decoded : fromUtf8 bytes = some cs) :
    bytes = cs.flatMap String.utf8EncodeChar := by
  simp only [fromUtf8, Option.map_eq_some_iff] at decoded
  obtain ⟨chars, some, rfl⟩ := decoded
  have encoded := ByteArray.utf8Encode_get_utf8Decode? (b := bytes.toByteArray) (h := by simp [some])
  simp only [some, Option.get_some, List.utf8Encode] at encoded
  exact (List.toByteArray_inj.mp encoded).symm

theorem Encoded.decoded {c : Char} (encoded : Encoded c head tail) :
    fromUtf8 (head :: tail) = some [c] := by
  rw [← encoded.bytes, ← fromUtf8_encode [c], List.flatMap_singleton]

theorem encoded_ascii {byte : UInt8} (length : charLength byte = some 1) :
    Encoded (Char.ofNat byte.toNat) byte [] := by
  have small : byte.toNat ≤ 0x7F := by
    unfold charLength at length
    split_ifs at length with ascii
    · exact UInt8.le_iff_toNat_le.mp ascii
    all_goals cases length
  have value : (Char.ofNat byte.toNat).val.toNat = byte.toNat := by
    rw [Char.ofNat, dif_pos (.inl (by omega))]
    rfl
  constructor
  · simp only [String.utf8EncodeChar, value, small, if_true, UInt8.ofNat_toNat]
  · exact length
  · simp

theorem encoded_of_fromUtf8 {text : List Char} (length : charLength head = some (tail.length + 1))
    (decoded : fromUtf8 (head :: tail) = some text) : ∃ c, text = [c] ∧ Encoded c head tail := by
  have bytes := eq_of_fromUtf8 decoded
  cases text with
  | nil => simp at bytes
  | cons c cs =>
    obtain ⟨head', tail', encoded⟩ := exists_encoded c
    rw [List.flatMap_cons, encoded.bytes, List.cons_append, List.cons.injEq] at bytes
    obtain ⟨rfl, tail_eq⟩ := bytes
    have short : tail.length + 1 = tail'.length + 1 :=
      Option.some.inj (length.symm.trans encoded.length)
    have empty : (cs.flatMap String.utf8EncodeChar).length = 0 := by
      have total := congrArg List.length tail_eq
      rw [List.length_append] at total
      omega
    cases cs with
    | nil =>
      apply Exists.intro c
      rw [List.flatMap_nil, List.append_nil] at tail_eq
      exact ⟨rfl, tail_eq ▸ encoded⟩
    | cons d ds =>
      obtain ⟨first, more, next⟩ := exists_encoded d
      rw [List.flatMap_cons, next.bytes] at empty
      simp at empty

end Encoding

section Cutting

variable {bytes rest held : List UInt8} {c : Char} {cs : List Char} {pos n need : Nat}

theorem charAt_drop (bytes : List UInt8) (pos : Nat) :
    charAt bytes pos = charAt (bytes.drop pos) 0 := by
  have short (need : Nat) (inside : pos < bytes.length) :
      bytes.length < pos + need ↔ bytes.length - pos < 0 + need := by omega
  by_cases inside : pos < bytes.length
  · simp [charAt, short _ inside]
  · rw [charAt, charAt, List.getElem?_eq_none (by omega), List.getElem?_eq_none]
    simp
    omega

theorem charAt_encoded (encoded : Encoded c head tail)
    (rest : List UInt8) : charAt (head :: tail ++ rest) 0 = some (c, tail.length + 1) := by
  have fits : ¬ tail.length + rest.length < tail.length := by omega
  simp [charAt, encoded.length, encoded.decoded, fits]

theorem charAt_cases (byte : UInt8) (rest : List UInt8) :
    charAt (byte :: rest) 0 = some (replacement, 1) ∨
    ∃ c tail more, rest = tail ++ more ∧ Encoded c byte tail ∧
      charAt (byte :: rest) 0 = some (c, tail.length + 1) := by
  cases length : charLength byte with
  | none => exact .inl (by simp [charAt, length])
  | some need =>
    by_cases short : (byte :: rest).length < 0 + need
    · exact .inl (by simp_all [charAt])
    cases decoded : fromUtf8 ((byte :: rest).take need) with
    | none => exact .inl (by simp_all [charAt])
    | some text =>
      have whole : need = (rest.take (need - 1)).length + 1 := by
        have pos := charLength_pos length
        simp only [List.length_cons] at short
        rw [List.length_take]
        omega
      have front : (byte :: rest).take need = byte :: rest.take (need - 1) := by
        rw [List.take_cons (by omega)]
      rw [front] at decoded
      obtain ⟨c, -, encoded⟩ := encoded_of_fromUtf8 (length.trans (congrArg some whole)) decoded
      refine .inr ⟨c, rest.take (need - 1), rest.drop (need - 1), ?_, encoded, ?_⟩
      · rw [List.take_append_drop]
      · have found := charAt_encoded encoded (rest.drop (need - 1))
        rwa [List.cons_append, List.take_append_drop] at found

theorem charAt_eq_none : charAt bytes 0 = none ↔ bytes = [] := by
  cases bytes with
  | nil => simp [charAt]
  | cons byte rest =>
    rcases charAt_cases byte rest with broken | ⟨c, tail, more, -, -, found⟩
    · simp [broken]
    · simp [found]

theorem charAt_length (found : charAt bytes 0 = some (c, n)) : 0 < n ∧ n ≤ bytes.length := by
  cases bytes with
  | nil => simp [charAt] at found
  | cons byte rest =>
    rcases charAt_cases byte rest with broken | ⟨c', tail, more, rfl, -, found'⟩
    · rw [broken, Option.some.injEq, Prod.mk.injEq] at found
      rw [← found.2, List.length_cons]
      omega
    · rw [found', Option.some.injEq, Prod.mk.injEq] at found
      rw [← found.2, List.length_cons, List.length_append]
      omega

inductive Cut : List UInt8 → List Char → Prop
  | nil : Cut [] []
  | cons {bytes : List UInt8} {c : Char} {n : Nat} {cs : List Char}
    (first : charAt bytes 0 = some (c, n)) (others : Cut (bytes.drop n) cs) : Cut bytes (c :: cs)

theorem Cut.unique {cs' : List Char} (cut : Cut bytes cs) (cut' : Cut bytes cs') : cs = cs' := by
  induction cut generalizing cs' with
  | nil =>
    cases cut' with
    | nil => rfl
    | cons first others => simp [charAt] at first
  | cons first others ih =>
    cases cut' with
    | nil => simp [charAt] at first
    | cons first' others' =>
      have same := first.symm.trans first'
      simp only [Option.some.injEq, Prod.mk.injEq] at same
      obtain ⟨rfl, rfl⟩ := same
      rw [ih others']

theorem cut_walkFrom (fuel : Nat) (bytes : List UInt8) (pos : Nat)
    (enough : bytes.length - pos ≤ fuel) : Cut (bytes.drop pos) (walkFrom bytes fuel pos) := by
  induction fuel generalizing pos with
  | zero =>
    rw [List.drop_of_length_le (by omega)]
    exact Cut.nil
  | succ fuel ih =>
    rw [walkFrom]
    cases found : charAt bytes pos with
    | none =>
      rw [charAt_drop, charAt_eq_none] at found
      rw [found]
      exact Cut.nil
    | some char =>
      obtain ⟨c, n⟩ := char
      have first := found
      rw [charAt_drop] at first
      have length := charAt_length first
      apply Cut.cons first
      rw [List.drop_drop]
      have next : nextBoundary bytes pos = pos + n := by rw [nextBoundary, found]
      rw [next]
      apply ih
      omega

theorem cut_walk (bytes : List UInt8) : Cut bytes (walk bytes) :=
  cut_walkFrom bytes.length bytes 0 (by omega)

theorem Cut.encoded (encoded : Encoded c head tail)
    (others : Cut rest cs) : Cut (head :: tail ++ rest) (c :: cs) := by
  apply Cut.cons (charAt_encoded encoded rest)
  rw [← List.length_cons, List.drop_left]
  exact others

theorem Cut.broken {byte : UInt8} (broken : charAt (byte :: rest) 0 = some (replacement, 1))
    (others : Cut rest cs) : Cut (byte :: rest) (replacement :: cs) :=
  Cut.cons broken others

theorem Cut.continuations (goesOn : ∀ byte ∈ held, isContinuation byte = true)
    (others : Cut rest cs) : Cut (held ++ rest) (List.replicate held.length replacement ++ cs) := by
  induction held with
  | nil => exact others
  | cons byte held ih =>
    rw [List.forall_mem_cons] at goesOn
    apply Cut.broken
    · simp [charAt, charLength_of_continuation goesOn.1]
    · exact ih goesOn.2

end Cutting

namespace Utf8Decoder

variable {d d' : Utf8Decoder} {byte : UInt8} {bytes rest : List UInt8} {out cs : List Char}

/-- What the decoder holds: nothing, or the beginning of a character that lacks a byte at least. -/
inductive Holds : Utf8Decoder → Prop
  | nothing : Holds new
  | beginning {head : UInt8} {tail : List UInt8} {need : Nat} (length : charLength head = some need)
    (goesOn : ∀ byte ∈ tail, isContinuation byte = true) (short : tail.length + 1 < need) :
    Holds ⟨head :: tail, need⟩

theorem charLength_le {need : Nat} (length : charLength byte = some need) : need ≤ 4 := by
  unfold charLength at length
  split_ifs at length <;> cases length <;> omega

theorem Holds.pending_lt (holds : d.Holds) : d.pending < 4 := by
  cases holds with
  | nothing => decide
  | beginning length goesOn short =>
    have := charLength_le length
    simp only [pending, List.length_cons]
    omega

structure Starts (byte : UInt8) (out : List Char) (d : Utf8Decoder) : Prop where
  start : new.start byte = (out, d)
  holds : d.Holds
  pending : out.length + d.pending = 1
  cut : ∀ {rest cs}, Cut (d.held ++ rest) cs → Cut (byte :: rest) (out ++ cs)

theorem starts (byte : UInt8) : ∃ out d, Starts byte out d := by
  cases length : charLength byte with
  | none =>
    refine ⟨[replacement], new, by simp [start, length], Holds.nothing, rfl, ?_⟩
    intro rest cs others
    apply Cut.broken _ others
    simp [charAt, length]
  | some need =>
    by_cases one : need = 1
    · subst one
      refine ⟨[Char.ofNat byte.toNat], new, by simp [start, length], Holds.nothing, rfl, ?_⟩
      intro rest cs others
      exact Cut.encoded (encoded_ascii length) others
    · have pos := charLength_pos length
      refine ⟨[], ⟨[byte], need⟩, ?_, ?_, rfl, fun others => others⟩
      · unfold start
        rw [length]
        split
        · simp_all
        · simp_all
        · simp_all
      · apply Holds.beginning length
        · simp
        · simp only [List.length_nil]
          omega

structure Feeds (d : Utf8Decoder) (byte : UInt8) (out : List Char) (d' : Utf8Decoder) : Prop where
  feed : d.feed byte = some (out, d')
  holds : d'.Holds
  few : out.length ≤ 4
  cut : ∀ {rest cs}, Cut (d'.held ++ rest) cs → Cut (d.held ++ byte :: rest) (out ++ cs)

theorem cut_beginning (goesOn : ∀ byte ∈ tail, isContinuation byte = true)
    (broken : charAt (head :: tail ++ rest) 0 = some (replacement, 1)) (others : Cut rest cs) :
    Cut (head :: tail ++ rest) (List.replicate (head :: tail).length replacement ++ cs) :=
  Cut.broken broken (Cut.continuations goesOn others)

theorem feed_continues (isHeld : d.held ≠ []) (few : d.pending < 4)
    (continues : isContinuation byte = true) :
    d.feed byte =
      if (d.held ++ [byte]).length < d.need then some ([], ⟨d.held ++ [byte], d.need⟩)
      else match fromUtf8 (d.held ++ [byte]) with
        | some text => some (text, new)
        | none => some (List.replicate (d.held ++ [byte]).length replacement, new) := by
  rw [pending] at few
  rw [feed, if_neg isHeld, continues, Bool.not_true, if_neg Bool.false_ne_true]
  exact if_neg (by omega)

theorem feeds (holds : d.Holds) (byte : UInt8) : ∃ out d', Feeds d byte out d' := by
  obtain ⟨out, next, starts⟩ := starts byte
  cases holds with
  | nothing =>
    refine ⟨out, next, ?_, starts.holds, ?_, starts.cut⟩
    · rw [feed, if_pos (show new.held = [] from rfl), starts.start]
    · have := starts.pending
      omega
  | @beginning head tail need length goesOn short =>
    have small := charLength_le length
    have holds : Holds ⟨head :: tail, need⟩ := Holds.beginning length goesOn short
    have isHeld : head :: tail ≠ [] := by simp
    by_cases continues : isContinuation byte = true
    · have goesOn' : ∀ b ∈ tail ++ [byte], isContinuation b = true := by
        intro b mem
        rcases List.mem_append.mp mem with old | last
        · exact goesOn b old
        · exact List.mem_singleton.mp last ▸ continues
      have unfolded := feed_continues isHeld holds.pending_lt continues
      simp only [List.cons_append] at unfolded
      by_cases more : (head :: (tail ++ [byte])).length < need
      · refine ⟨[], ⟨head :: (tail ++ [byte]), need⟩, ?_, ?_, by simp, ?_⟩
        · rw [unfolded, if_pos more]
        · apply Holds.beginning length goesOn'
          simpa using more
        · intro rest cs others
          simpa using others
      · rw [if_neg more] at unfolded
        have whole : need = (tail ++ [byte]).length + 1 := by
          simp only [List.length_cons, List.length_append, List.length_nil] at more ⊢
          omega
        cases decoded : fromUtf8 (head :: (tail ++ [byte])) with
        | some text =>
          rw [decoded] at unfolded
          obtain ⟨c, rfl, encoded⟩ :=
            encoded_of_fromUtf8 (length.trans (congrArg some whole)) decoded
          refine ⟨[c], new, unfolded, Holds.nothing, by simp, ?_⟩
          intro rest cs others
          have cut := Cut.encoded encoded others
          simpa [new] using cut
        | none =>
          rw [decoded] at unfolded
          refine ⟨_, new, unfolded, Holds.nothing, ?_, ?_⟩
          · rw [List.length_replicate, List.length_cons]
            omega
          · intro rest cs others
            have broken : charAt (head :: (tail ++ [byte]) ++ rest) 0 = some (replacement, 1) := by
              rcases charAt_cases head (tail ++ [byte] ++ rest) with
                broken | ⟨c, tail', after, eq, encoded, -⟩
              · exact broken
              · have same : need = tail'.length + 1 :=
                  Option.some.inj (length.symm.trans encoded.length)
                obtain ⟨rfl, -⟩ := List.append_inj eq (by omega)
                rw [encoded.decoded] at decoded
                cases decoded
            have cut := cut_beginning goesOn' broken others
            simpa [new] using cut
    · refine ⟨List.replicate (head :: tail).length replacement ++ out, next, ?_, starts.holds, ?_, ?_⟩
      · simp only [feed, if_neg isHeld, continues, flushBroken, starts.start]
        rfl
      · have := starts.pending
        simp only [List.length_append, List.length_replicate, List.length_cons]
        omega
      · intro rest cs others
        have broken : charAt (head :: tail ++ byte :: rest) 0 = some (replacement, 1) := by
          rcases charAt_cases head (tail ++ byte :: rest) with
            broken | ⟨c, tail', after, eq, encoded, -⟩
          · exact broken
          · have same : need = tail'.length + 1 :=
              Option.some.inj (length.symm.trans encoded.length)
            have mem : byte ∈ tail' := by
              have there : (tail ++ byte :: rest)[tail.length]? = some byte := by simp
              rw [eq, List.getElem?_append_left (by omega)] at there
              exact List.mem_of_getElem? there
            exact absurd (encoded.goesOn byte mem) continues
        have cut := cut_beginning goesOn broken (starts.cut others)
        rwa [← List.append_assoc] at cut

theorem feedAll_nil (d : Utf8Decoder) : d.feedAll [] = some ([], d) := rfl

theorem feedAll_cons {next last : Utf8Decoder} {more : List Char} (first : d.feed byte = some (out, next))
    (others : next.feedAll bytes = some (more, last)) :
    d.feedAll (byte :: bytes) = some (out ++ more, last) := by
  simp [feedAll, first, others]

theorem feedAll_holds (holds : d.Holds) (bytes : List UInt8) : ∃ out d', d.feedAll bytes = some (out, d') ∧
    d'.Holds ∧ ∀ {rest cs}, Cut (d'.held ++ rest) cs → Cut (d.held ++ bytes ++ rest) (out ++ cs) := by
  induction bytes generalizing d with
  | nil =>
    refine ⟨[], d, rfl, holds, ?_⟩
    intro rest cs others
    simpa using others
  | cons byte bytes ih =>
    obtain ⟨out, next, feeds⟩ := feeds holds byte
    obtain ⟨more, last, fed, lastHolds, cut⟩ := ih feeds.holds
    refine ⟨out ++ more, last, feedAll_cons feeds.feed fed, lastHolds, ?_⟩
    intro rest cs others
    have first := cut others
    rw [List.append_assoc] at first
    have all := feeds.cut first
    simpa using all

theorem Holds.cut (holds : d.Holds) : Cut d.held (List.replicate d.pending replacement) := by
  cases holds with
  | nothing => exact Cut.nil
  | @beginning head tail need length goesOn short =>
    have broken : charAt (head :: tail ++ []) 0 = some (replacement, 1) := by
      have cutOff : (head :: tail).length < 0 + need := by simpa using short
      simp [charAt, length] at cutOff ⊢
      omega
    have cut := cut_beginning goesOn broken Cut.nil
    rwa [List.append_nil, List.append_nil] at cut

/-- The decoder and the walk cut at the same places: the characters that came out, and a
replacement for every byte that is still held, are those of the walk. -/
theorem walk_eq (bytes : List UInt8) : ∃ out d, new.feedAll bytes = some (out, d) ∧ d.Holds ∧
    walk bytes = out ++ List.replicate d.pending replacement := by
  obtain ⟨out, d, fed, holds, cut⟩ := feedAll_holds Holds.nothing bytes
  refine ⟨out, d, fed, holds, Cut.unique (cut_walk bytes) ?_⟩
  have held := holds.cut
  have all : Cut (bytes ++ []) _ := cut (by simpa using held)
  simpa [new] using all

theorem feedAll_append (d : Utf8Decoder) (first second : List UInt8) :
    d.feedAll (first ++ second) = (d.feedAll first).bind fun (out, next) =>
      (next.feedAll second).map fun (more, last) => (out ++ more, last) := by
  induction first generalizing d with
  | nil => simp [feedAll]
  | cons byte first ih =>
    simp only [List.cons_append, feedAll]
    cases d.feed byte with
    | none => rfl
    | some fed =>
      simp only [Option.bind_eq_bind, Option.bind_some, ih]
      cases fed.2.feedAll first with
      | none => rfl
      | some fed' =>
        simp only [Option.bind_some]
        cases fed'.2.feedAll second <;> simp

theorem feedChunks_eq (d : Utf8Decoder) (chunks : List (List UInt8)) :
    d.feedChunks chunks = d.feedAll chunks.flatten := by
  induction chunks generalizing d with
  | nil => rfl
  | cons chunk chunks ih =>
    rw [List.flatten_cons, feedAll_append, feedChunks]
    cases d.feedAll chunk with
    | none => rfl
    | some fed =>
      simp only [Option.bind_eq_bind, Option.bind_some, ih]
      cases fed.2.feedAll chunks.flatten <;> rfl

section Text

theorem feedAll_tail {c : Char} {before after : List UInt8}
    (encoded : Encoded c head (before ++ after)) (more : after ≠ []) :
    feedAll ⟨head :: before, (before ++ after).length + 1⟩ after = some ([c], new) := by
  induction after generalizing before with
  | nil => exact absurd rfl more
  | cons byte after ih =>
    have holds : Holds ⟨head :: before, (before ++ byte :: after).length + 1⟩ := by
      apply Holds.beginning encoded.length
      · intro b mem
        exact encoded.goesOn b (List.mem_append_left _ mem)
      · simp
    have continues := encoded.goesOn byte (by simp)
    have fed := feed_continues (by simp) holds.pending_lt continues
    simp only [List.cons_append] at fed
    cases after with
    | nil =>
      rw [if_neg (by simp), encoded.decoded] at fed
      have ended := feedAll_cons fed (feedAll_nil _)
      simpa [feedAll] using ended
    | cons next after =>
      have split : before ++ byte :: next :: after = (before ++ [byte]) ++ next :: after := by simp
      rw [if_pos (by simp)] at fed
      rw [split] at encoded
      have others := ih encoded (by simp)
      rw [← split] at others
      exact feedAll_cons fed others

theorem feedAll_text (cs : List Char) :
    new.feedAll (cs.flatMap String.utf8EncodeChar) = some (cs, new) := by
  induction cs with
  | nil => rfl
  | cons c cs ih =>
    obtain ⟨head, tail, encoded⟩ := exists_encoded c
    have first : new.feedAll (head :: tail) = some ([c], new) := by
      cases tail with
      | nil =>
        have ascii := encoded_ascii encoded.length
        have same : c = Char.ofNat head.toNat := by
          have := encoded.decoded.symm.trans ascii.decoded
          simpa using this
        have fed : new.feed head = some ([c], new) := by
          rw [feed, if_pos (show new.held = [] from rfl), start, encoded.length, same]
          rfl
        have ended := feedAll_cons fed (feedAll_nil _)
        simpa [feedAll] using ended
      | cons byte tail =>
        have fed : new.feed head = some ([], ⟨[head], (byte :: tail).length + 1⟩) := by
          rw [feed, if_pos (show new.held = [] from rfl), start, encoded.length]
          rfl
        exact feedAll_cons fed (feedAll_tail encoded (by simp))
    rw [List.flatMap_cons, encoded.bytes, feedAll_append, first]
    simp [ih]

end Text

end Utf8Decoder

section Columns

variable {bytes : List UInt8} {c : Char} {n p q : Nat}

def cells (cs : List Char) : Nat := (cs.map widthCells).sum

theorem cells_append (first second : List Char) :
    cells (first ++ second) = cells first + cells second := by
  simp [cells]

theorem cells_replacements (count : Nat) : cells (List.replicate count replacement) = count := by
  have one : widthCells replacement = 1 := by decide
  simp [cells, one]

theorem charAt_take (found : charAt bytes 0 = some (c, n)) (inside : n ≤ q) :
    charAt (bytes.take q) 0 = some (c, n) := by
  have length := charAt_length found
  cases bytes with
  | nil => simp at length; omega
  | cons byte rest =>
    have front : (byte :: rest).take q = byte :: rest.take (q - 1) := List.take_cons (by omega)
    rw [front]
    rcases charAt_cases byte (rest.take (q - 1)) with broken | ⟨c', tail, more, eq, encoded, short⟩
    · rcases charAt_cases byte rest with broken' | ⟨c', tail, more, rfl, encoded, whole⟩
      · rw [broken, ← broken', found]
      · have same := found.symm.trans whole
        simp only [Option.some.injEq, Prod.mk.injEq] at same
        have shorter : (tail ++ more).take (q - 1) = tail ++ more.take (q - 1 - tail.length) := by
          rw [List.take_append, List.take_of_length_le (by omega)]
        rw [shorter, ← List.cons_append, charAt_encoded encoded, same.1, same.2]
    · have whole := charAt_encoded encoded (more ++ rest.drop (q - 1))
      rw [List.cons_append, ← List.append_assoc, ← eq, List.take_append_drop, found] at whole
      rw [short, whole]

theorem WalkPosition.reached (position : WalkPosition bytes p) :
    Relation.ReflTransGen (fun pos next => next = nextBoundary bytes pos) 0 p := by
  induction position with
  | start => exact Relation.ReflTransGen.refl
  | next before ih => exact ih.tail rfl

theorem displayLoop_eq {pos : Nat}
    (walks : Relation.ReflTransGen (fun pos next => next = nextBoundary bytes pos) pos p) :
    pos ≤ p ∧ ∃ cs, Cut ((bytes.take p).drop pos) cs ∧ ∀ fuel column, p - pos ≤ fuel →
      displayLoop bytes p fuel pos column = column + cells cs := by
  induction walks using Relation.ReflTransGen.head_induction_on with
  | refl =>
    refine ⟨Nat.le_refl _, [], ?_, ?_⟩
    · rw [List.drop_of_length_le (by rw [List.length_take]; omega)]
      exact Cut.nil
    · intro fuel column _
      cases fuel <;> simp [displayLoop, cells]
  | @head pos next step _ ih =>
    subst step
    obtain ⟨le, cs, cut, loop⟩ := ih
    cases found : charAt bytes pos with
    | none =>
      have stays : nextBoundary bytes pos = pos := by rw [nextBoundary, found]
      rw [stays] at le cut loop
      exact ⟨le, cs, cut, loop⟩
    | some char =>
      obtain ⟨c, n⟩ := char
      have moves : nextBoundary bytes pos = pos + n := by rw [nextBoundary, found]
      rw [moves] at le cut loop
      have first := found
      rw [charAt_drop] at first
      have length := charAt_length first
      refine ⟨by omega, c :: cs, ?_, ?_⟩
      · apply Cut.cons (n := n)
        · rw [List.drop_take]
          exact charAt_take first (by omega)
        · rw [List.drop_drop]
          exact cut
      · intro fuel column enough
        cases fuel with
        | zero => omega
        | succ fuel =>
          rw [displayLoop, if_pos (by omega), found]
          dsimp only
          rw [loop fuel _ (by omega)]
          simp only [cells, List.map_cons, List.sum_cons]
          omega

theorem displayColumn_eq (position : WalkPosition bytes p) :
    displayColumn bytes p = cells (walk (bytes.take p)) := by
  obtain ⟨-, cs, cut, loop⟩ := displayLoop_eq position.reached
  rw [List.drop_zero] at cut
  rw [displayColumn, loop p 0 (by omega), Cut.unique (cut_walk (bytes.take p)) cut, Nat.zero_add]

end Columns

end Zaytos.Terminal
