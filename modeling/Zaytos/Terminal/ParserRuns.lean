import Zaytos.Terminal.Tokens

set_option autoImplicit false

/-! The parser of escape sequences does what the text means, but for a mark that comes late. -/
namespace Zaytos.Terminal.AnsiParser

variable {p q : AnsiParser} {c : Char} {isPrivate : Bool} {done : List Nat} {current : Nat}
  {text rest body after : List Char}

def feedCalls (p : AnsiParser) : List (List Char) → Option (List AnsiAction × AnsiParser)
  | [] => some ([], p)
  | text :: rest => do
    let (now, p) ← p.feedAll text
    let (later, p) ← p.feedCalls rest
    some (now ++ later, p)

theorem feedAll_cons {action : Option AnsiAction} (fed : p.feed 2 c = some (action, q)) :
    p.feedAll (c :: rest) = (q.feedAll rest).map fun out => (action.toList ++ out.1, out.2) := by
  simp only [feedAll, fed, Option.bind_eq_bind, Option.bind_some]
  cases q.feedAll rest <;> rfl

theorem feedAll_silent (fed : p.feed 2 c = some (none, q)) :
    p.feedAll (c :: rest) = q.feedAll rest := by
  rw [feedAll_cons fed]
  cases q.feedAll rest <;> rfl

theorem feedAll_append (first : List Char) :
    p.feedAll (first ++ rest) = (p.feedAll first).bind fun out =>
      (out.2.feedAll rest).map fun later => (out.1 ++ later.1, later.2) := by
  induction first generalizing p with
  | nil =>
    rw [List.nil_append, feedAll, Option.bind_some]
    cases p.feedAll rest <;> rfl
  | cons c first ih =>
    cases fed : p.feed 2 c with
    | none => rw [List.cons_append, feedAll, feedAll, fed]; rfl
    | some out =>
      rw [List.cons_append, feedAll_cons fed, feedAll_cons fed, ih]
      cases out.2.feedAll first with
      | none => rfl
      | some now =>
        simp only [Option.map_some, Option.bind_some]
        cases now.2.feedAll rest with
        | none => rfl
        | some later => simp

theorem feedCalls_flatten (calls : List (List Char)) : p.feedCalls calls = p.feedAll calls.flatten := by
  induction calls generalizing p with
  | nil => rfl
  | cons text rest ih =>
    rw [List.flatten_cons, feedAll_append, feedCalls]
    cases p.feedAll text with
    | none => rfl
    | some now =>
      dsimp only [Option.bind_eq_bind, Option.bind_some]
      rw [ih]
      cases now.2.feedAll rest.flatten <;> rfl

theorem feed_print (ground : p.state = .ground) (plain : c ≠ '\x1b') :
    p.feed 2 c = some (some (.print c), p) := by
  rw [feed, ground]
  exact if_neg plain

theorem feed_escape (ground : p.state = .ground) :
    p.feed 2 '\x1b' = some (none, { new with state := .escape }) := by
  rw [feed, ground]
  exact if_pos rfl

theorem feed_bracket : ({ new with state := .escape } : AnsiParser).feed 2 '[' =
    some (none, { new with state := .csi }) := rfl

theorem feed_param (csi : p.state = .csi) (param : isParamChar c = true) :
    p.feed 2 c = some (none, p.readChar c) := by
  rw [feed, csi]
  show p.feedCsi (feed 1) c = _
  rw [feedCsi, readChar]
  simp only [isParamChar, Bool.or_eq_true, Bool.and_eq_true, decide_eq_true_eq, beq_iff_eq] at param
  by_cases digit : '0' ≤ c ∧ c ≤ '9'
  · have other : c ≠ ';' := by
      intro same
      rw [same] at digit
      exact absurd digit (by decide)
    rw [if_pos digit, if_neg other]
    rfl
  · have separator := param.resolve_left digit
    have unmarked : ¬(c = '?' ∧ p.paramIndex = 0 ∧ p.params[0]? = some 0 ∧ !p.isPrivate) := by
      intro mark
      rw [separator] at mark
      exact absurd mark.1 (by decide)
    rw [if_neg digit, if_neg unmarked, if_pos separator, if_pos separator]
    split <;> rfl

theorem readChar_state (csi : p.state = .csi) (c : Char) : (p.readChar c).state = .csi := by
  rw [readChar]
  split
  · split
    · exact csi
    · exact csi
  · exact csi

theorem feedAll_body (csi : p.state = .csi) (params : ∀ c ∈ body, isParamChar c = true) :
    p.feedAll (body ++ rest) = (body.foldl readChar p).feedAll rest := by
  induction body generalizing p with
  | nil => rfl
  | cons c body ih =>
    have first := params c List.mem_cons_self
    rw [List.cons_append, feedAll_cons (feed_param csi first),
      ih (readChar_state csi c) fun d mem => params d (List.mem_cons_of_mem c mem), List.foldl_cons]
    cases (List.foldl readChar (p.readChar c) body).feedAll rest <;> rfl

theorem feed_final (csi : p.state = .csi) (final : isFinal c = true) :
    p.feed 2 c = (if p.tooManyParams then some none else p.dispatchFinal c).map fun action =>
      (action, { p with state := .ground }) := by
  rw [feed, csi]
  show p.feedCsi (feed 1) c = _
  have range : '\x40' ≤ c ∧ c ≤ '\x7e' := by
    simpa [isFinal] using final
  have digit : ¬('0' ≤ c ∧ c ≤ '9') := fun digit =>
    absurd (Char.le_trans range.1 digit.2) (by decide)
  have mark : ¬(c = '?' ∧ p.paramIndex = 0 ∧ p.params[0]? = some 0 ∧ !p.isPrivate) := by
    intro mark
    rw [mark.1] at range
    exact absurd range.1 (by decide)
  have separator : c ≠ ';' := by
    intro same
    rw [same] at range
    exact absurd range.1 (by decide)
  rw [feedCsi, if_neg digit, if_neg mark, if_neg separator, if_pos range]
  split
  · rfl
  · cases p.dispatchFinal c <;> rfl

theorem feed_other (csi : p.state = .csi) (param : isParamChar c = false)
    (final : isFinal c = false)
    (mark : ¬(c = '?' ∧ p.paramIndex = 0 ∧ p.params[0]? = some 0 ∧ !p.isPrivate)) :
    p.feed 2 c = ({ p with state := .ground } : AnsiParser).feed 1 c := by
  rw [feed, csi]
  show p.feedCsi (feed 1) c = _
  have range : ¬('\x40' ≤ c ∧ c ≤ '\x7e') := by
    simpa [isFinal] using final
  have digit : ¬('0' ≤ c ∧ c ≤ '9') ∧ c ≠ ';' := by
    simpa [isParamChar] using param
  rw [feedCsi, if_neg digit.1, if_neg mark, if_neg digit.2, if_neg range]

theorem feed_mark (csi : p.state = .csi)
    (mark : p.paramIndex = 0 ∧ p.params[0]? = some 0 ∧ !p.isPrivate) :
    p.feed 2 '?' = some (none, { p with isPrivate := true }) := by
  rw [feed, csi]
  show p.feedCsi (feed 1) '?' = _
  rw [feedCsi, if_neg (by decide), if_pos ⟨rfl, mark⟩, csi]

theorem feed_two (sound : p.Sound) (ground : p.state = .ground) : p.feed 2 c = p.feed 1 c :=
  (feed_ground sound ground c 1).1

theorem feedAll_again {g : AnsiParser} (sound : g.Sound) (ground : g.state = .ground)
    (again : p.feed 2 c = g.feed 1 c) : p.feedAll (c :: rest) = g.feedAll (c :: rest) := by
  rw [feedAll, feedAll, again, feed_two sound ground]

/-- What the parser does at a text, beside what tokens say: no more, and less exactly when a mark
comes late. -/
def Does (p : AnsiParser) (text : List Char) (ts : List Token) : Prop :=
  ∃ done q, p.feedAll text = some (done, q) ∧ done.length ≤ (ts.filterMap Token.action).length ∧
    ((∀ t ∈ ts, ¬t.Late) → done = ts.filterMap Token.action) ∧
    ((∃ t ∈ ts, t.Late) → done.length < (ts.filterMap Token.action).length)

theorem filterMap_action (t : Token) (ts : List Token) :
    (t :: ts).filterMap Token.action = t.action.toList ++ ts.filterMap Token.action := by
  rw [List.filterMap_cons]
  cases t.action <;> rfl

theorem Does.nil : p.Does [] [] :=
  ⟨[], p, rfl, le_rfl, fun _ => rfl, fun late => by simp at late⟩

theorem Does.cons {t : Token} {ts : List Token} {later : List Char} (prompt : ¬t.Late)
    (fed : p.feedAll text =
      (q.feedAll later).map fun out => (t.action.toList ++ out.1, out.2))
    (does : q.Does later ts) : p.Does text (t :: ts) := by
  apply Exists.elim does
  intro done does
  apply Exists.elim does
  intro r does
  rw [Does, filterMap_action]
  refine ⟨t.action.toList ++ done, r, ?_, ?_, ?_, ?_⟩
  · rw [fed, does.1]
    rfl
  · rw [List.length_append, List.length_append]
    exact Nat.add_le_add_left does.2.1 _
  · intro none
    rw [does.2.2.1 fun u mem => none u (List.mem_cons_of_mem t mem)]
  · intro late
    apply Exists.elim late
    intro u late
    rw [List.length_append, List.length_append]
    apply Nat.add_lt_add_left
    apply does.2.2.2
    cases late.1 with
    | head => exact absurd late.2 prompt
    | tail _ mem => exact ⟨u, mem, late.2⟩

theorem Does.congr {ts : List Token} {later : List Char} (fed : p.feedAll text = q.feedAll later)
    (does : q.Does later ts) : p.Does text ts := by
  rw [Does, fed]
  exact does

theorem actions_body (params : ∀ c ∈ body, isParamChar c = true) :
    (actions (body ++ rest)).length = body.length + (actions rest).length := by
  induction body with
  | nil => exact (zero_add _).symm
  | cons c body ih =>
    have plain : c ≠ '\x1b' := by
      intro same
      have := params c List.mem_cons_self
      rw [same] at this
      exact absurd this (by decide)
    rw [List.cons_append, actions, tokens_print plain, filterMap_action, List.length_append,
      ← actions, ih fun d mem => params d (List.mem_cons_of_mem c mem), List.length_cons]
    simp only [Token.action, Option.toList_some, List.length_singleton]
    omega

theorem Reading.sound (reading : p.Reading isPrivate done current) : p.Sound := by
  rw [Reading] at reading
  split at reading
  · rename_i few
    rw [reading]
    apply withParams_sound
    · exact List.append_ne_nil_of_right_ne_nil _ (List.cons_ne_nil _ _)
    · rw [List.length_append, List.length_singleton]
      exact few
  · exact reading.2.2.2.2

theorem Reading.final (reading : p.Reading isPrivate done current)
    (values : paramValues body = done ++ [current]) :
    (if p.tooManyParams then some none else p.dispatchFinal c) =
      some (Token.csi isPrivate body c).action := by
  have sound := reading.sound
  have length : (paramValues body).length = done.length + 1 := by
    rw [values, List.length_append, List.length_singleton]
  rw [Token.action, length]
  rw [Reading] at reading
  by_cases few : done.length < maxParams
  · rw [if_pos few] at reading
    rw [if_pos (show done.length + 1 ≤ maxParams from few), dispatch, values, ← reading]
    have open_ : ¬p.tooManyParams = true := by
      rw [reading]
      exact Bool.false_ne_true
    rw [if_neg open_]
    apply Exists.elim (dispatchFinal_total sound c)
    intro action found
    rw [found.1]
    rfl
  · rw [if_neg few] at reading
    rw [if_neg (show ¬done.length + 1 ≤ maxParams from few), if_pos reading.2.2.1]

theorem Reading.mark_iff (reading : p.Reading isPrivate done current) :
    (p.paramIndex = 0 ∧ p.params[0]? = some 0 ∧ !p.isPrivate) ↔
      isPrivate = false ∧ done = [] ∧ current = 0 := by
  have mark := reading.mark
  rw [Reading] at reading
  by_cases few : done.length < maxParams
  · rw [if_pos few] at reading
    rw [mark, reading, withParams_index, withParams_snoc, List.length_eq_zero_iff]
    cases done with
    | nil =>
      have zero : saturate32 current = 0 ↔ current = 0 := by
        rw [saturate32]
        omega
      simp only [List.map_nil, List.nil_append, List.getElem?_cons_zero, Option.some.injEq, zero,
        true_and, Bool.not_eq_true']
      exact and_comm
    | cons first rest =>
      apply iff_of_false
      · intro both
        cases both.1
      · intro both
        cases both.2.1
  · rw [if_neg few] at reading
    rw [reading.2.2.2.1]
    apply iff_of_false
    · exact fun both => absurd both.1 (by decide)
    · intro both
      rw [both.2.1] at few
      exact few (by decide)

theorem paramsFrom_ne_nil (current : Nat) (body : List Char) : paramsFrom current body ≠ [] := by
  induction body generalizing current with
  | nil => exact List.cons_ne_nil _ _
  | cons c rest ih =>
    rw [paramsFrom]
    split
    · exact List.cons_ne_nil _ _
    · exact ih _

theorem paramsFrom_zero (params : ∀ c ∈ body, isParamChar c = true) :
    paramsFrom current body = [0] ↔ current = 0 ∧ ∀ c ∈ body, c = '0' := by
  induction body generalizing current with
  | nil => simp [paramsFrom]
  | cons c body ih =>
    have first := params c List.mem_cons_self
    have later := fun d mem => params d (List.mem_cons_of_mem c mem)
    rw [paramsFrom, List.forall_mem_cons]
    split
    · rename_i separator
      apply iff_of_false
      · intro single
        exact paramsFrom_ne_nil 0 body (List.cons.inj single).2
      · intro zeros
        exact absurd (separator.symm.trans zeros.2.1) (by decide)
    · rename_i digit
      rw [ih later]
      have range : '0' ≤ c := by
        simp only [isParamChar, Bool.or_eq_true, Bool.and_eq_true, decide_eq_true_eq,
          beq_iff_eq] at first
        exact (first.resolve_right digit).1
      have zero : digitValue c = 0 ↔ c = '0' := by
        have le : '0'.toNat ≤ c.toNat := range
        rw [digitValue, ← Char.toNat_inj]
        omega
      rw [← zero, ← and_assoc]
      have sum : current * 10 + digitValue c = 0 ↔ current = 0 ∧ digitValue c = 0 := by
        omega
      rw [sum]

theorem actions_print (plain : c ≠ '\x1b') :
    (actions (c :: rest)).length = (actions rest).length + 1 := by
  rw [actions, tokens_print plain, filterMap_action, List.length_append, ← actions]
  exact add_comm _ _

theorem exists_action (sound : p.Sound) (c : Char) :
    ∃ action, (if p.tooManyParams then some none else p.dispatchFinal c) = some action := by
  split
  · exact ⟨none, rfl⟩
  · apply Exists.elim (dispatchFinal_total sound c)
    intro action found
    exact ⟨action, found.1⟩

theorem feedAll_private (reading : p.Reading true done current)
    (stops : ∀ c ∈ text.head?, isParamChar c = false)
    (shorter : ∀ (q : AnsiParser) (later : List Char), later.length ≤ text.length → q.Sound →
      q.state = .ground → q.Does later (tokens later)) :
    ∃ later q, p.feedAll text = some (later, q) ∧ later.length ≤ (actions text).length := by
  have sound := reading.sound
  cases text with
  | nil => exact ⟨[], p, rfl, Nat.zero_le _⟩
  | cons c text =>
    by_cases final : isFinal c = true
    · apply Exists.elim (shorter { p with state := .ground } text (Nat.le_succ _)
        (sound.state .ground) rfl)
      intro later does
      apply Exists.elim does
      intro q does
      have plain : c ≠ '\x1b' := by
        intro same
        rw [same] at final
        exact absurd final (by decide)
      apply Exists.elim (exists_action sound c)
      intro action found
      have fed := feed_final reading.state final
      rw [found, Option.map_some] at fed
      refine ⟨action.toList ++ later, q, ?_, ?_⟩
      · rw [feedAll_cons fed, does.1]
        rfl
      · have one : action.toList.length ≤ 1 := by
          cases action with
          | none => exact Nat.zero_le 1
          | some a => exact le_rfl
        have few : later.length ≤ (actions text).length := does.2.1
        rw [List.length_append, actions_print plain]
        omega
    · have unmarked : ¬(c = '?' ∧ p.paramIndex = 0 ∧ p.params[0]? = some 0 ∧ !p.isPrivate) := by
        intro mark
        exact absurd (reading.mark_iff.mp mark.2).1 (Bool.noConfusion)
      have fed := feed_other reading.state (stops c rfl) (Bool.not_eq_true _ ▸ final) unmarked
      apply Exists.elim (shorter { p with state := .ground } (c :: text) le_rfl
        (sound.state .ground) rfl)
      intro later does
      apply Exists.elim does
      intro q does
      exact ⟨later, q, (feedAll_again (sound.state .ground) rfl fed).trans does.1, does.2.1⟩

theorem does_late (reading : p.Reading false [] 0) (zeros : body ≠ [] ∧ ∀ d ∈ body, d = '0')
    (shorter : ∀ (q : AnsiParser) (later : List Char), later.length ≤ rest.length → q.Sound →
      q.state = .ground → q.Does later (tokens later)) :
    p.Does ('?' :: rest) (.abandoned false body '?' :: tokens ('?' :: rest)) := by
  have marked := feed_mark reading.state (reading.mark_iff.mpr ⟨rfl, rfl, rfl⟩)
  have params : ∀ c ∈ rest.takeWhile isParamChar, isParamChar c = true :=
    fun c mem => List.mem_takeWhile_imp mem
  have inner := (List.takeWhile_append_dropWhile (p := isParamChar) (l := rest)).symm
  have short := (List.dropWhile_suffix (l := rest) isParamChar).length_le
  have stops : ∀ c ∈ (rest.dropWhile isParamChar).head?, isParamChar c = false := by
    intro c mem
    cases dropped : rest.dropWhile isParamChar with
    | nil =>
      rw [dropped] at mem
      cases mem
    | cons d after =>
      rw [dropped] at mem
      cases mem
      exact (eq_takeWhile_append dropped).2
  have reading' : ({ p with isPrivate := true } : AnsiParser).Reading true [] 0 := by
    rw [Reading, if_pos (by decide)] at reading ⊢
    rw [reading]
    rfl
  apply Exists.elim (reading'.body (rest.takeWhile isParamChar))
  intro done read
  apply Exists.elim read
  intro current read
  apply Exists.elim (feedAll_private read.2 stops fun q later less =>
    shorter q later (le_trans less short))
  intro later fed
  apply Exists.elim fed
  intro q fed
  have whole : p.feedAll ('?' :: rest) = some (later, q) := by
    rw [feedAll_cons marked]
    conv_lhs => rw [inner, feedAll_body reading'.state params, fed.1]
    rfl
  have less : later.length < ((Token.abandoned false body '?' ::
      tokens ('?' :: rest)).filterMap Token.action).length := by
    rw [filterMap_action, ← actions]
    show later.length < (actions ('?' :: rest)).length
    rw [actions_print (by decide)]
    conv_rhs => rw [inner, actions_body params]
    omega
  refine ⟨later, q, whole, le_of_lt less, ?_, fun _ => less⟩
  intro none
  exact absurd ⟨rfl, rfl, zeros⟩ (none _ List.mem_cons_self)

theorem does_scanned (reading : p.Reading isPrivate [] 0)
    (params : ∀ c ∈ body, isParamChar c = true)
    (stops : ∀ c ∈ after.head?, isParamChar c = false)
    (plain : isPrivate = false → (body ++ after).head? ≠ some '?')
    (shorter : ∀ (q : AnsiParser) (later : List Char), later.length ≤ after.length → q.Sound →
      q.state = .ground → q.Does later (tokens later)) :
    p.Does (body ++ after) (scannedTokens isPrivate body after) := by
  apply Does.congr (feedAll_body reading.state params)
  apply Exists.elim (reading.body body)
  intro done read
  apply Exists.elim read
  intro current read
  have values : paramValues body = done ++ [current] := read.1
  generalize body.foldl readChar p = r at read
  have sound := read.2.sound
  cases after with
  | nil => exact Does.nil
  | cons c after =>
    have stop := stops c rfl
    rw [scannedTokens]
    split
    · rename_i final
      apply @Does.cons _ ({ r with state := .ground }) _ (.csi isPrivate body c) _ _ not_false
      · have fed := feed_final read.2.state final
        rw [read.2.final values, Option.map_some] at fed
        exact feedAll_cons fed
      · exact shorter _ after (Nat.le_succ _) (sound.state .ground) rfl
    · rename_i other
      by_cases mark : c = '?' ∧ r.paramIndex = 0 ∧ r.params[0]? = some 0 ∧ !r.isPrivate
      · have first := read.2.mark_iff.mp mark.2
        have zero : paramsFrom 0 body = [0] := by
          rw [← paramValues, values, first.2.1, first.2.2]
          rfl
        have zeros := (paramsFrom_zero params).mp zero
        have some : body ≠ [] := by
          intro none
          apply plain first.1
          rw [none, mark.1]
          rfl
        rw [mark.1, first.1]
        rw [first.1, first.2.1, first.2.2] at read
        exact does_late read.2 ⟨some, zeros.2⟩ fun q later short =>
          shorter q later (Nat.le_succ_of_le short)
      · have fed := feed_other read.2.state stop (Bool.not_eq_true _ ▸ other) mark
        apply @Does.cons _ ({ r with state := .ground }) _ _ _ (c :: after)
        · intro late
          apply mark
          have zero := (paramsFrom_zero params).mpr ⟨rfl, late.2.2.2⟩
          rw [← paramValues, values] at zero
          have both := List.append_inj' (zero.trans (List.nil_append [0]).symm) rfl
          exact ⟨late.2.1, read.2.mark_iff.mpr ⟨late.1, both.1, (List.cons.inj both.2).1⟩⟩
        · rw [feedAll_again (sound.state .ground) rfl fed]
          simp [Token.action]
        · exact shorter _ (c :: after) le_rfl (sound.state .ground) rfl

theorem privateMark_reading :
    ({ new with state := .csi, isPrivate := true } : AnsiParser).Reading true [] 0 := by
  rw [Reading, if_pos (by decide)]
  rfl

theorem csi_reading : ({ new with state := .csi } : AnsiParser).Reading false [] 0 := by
  rw [Reading, if_pos (by decide)]
  rfl

theorem does_tokens (n : Nat) : ∀ text : List Char, text.length ≤ n → ∀ p : AnsiParser, p.Sound →
    p.state = .ground → p.Does text (tokens text) := by
  induction n with
  | zero =>
    intro text short p _ _
    rw [List.length_eq_zero_iff.mp (Nat.le_zero.mp short), tokens_nil]
    exact Does.nil
  | succ n ih =>
    intro text short p sound ground
    cases text with
    | nil =>
      rw [tokens_nil]
      exact Does.nil
    | cons c text =>
      rw [List.length_cons, Nat.add_le_add_iff_right] at short
      by_cases escape : c = '\x1b'
      · rw [escape]
        cases text with
        | nil =>
          rw [tokens_escape_end]
          exact Does.congr (feedAll_silent (feed_escape ground)) Does.nil
        | cons d text =>
          rw [List.length_cons] at short
          by_cases bracket : d = '['
          · rw [bracket]
            apply Exists.elim (exists_scanned text)
            intro isPrivate found
            apply Exists.elim found
            intro body found
            apply Exists.elim found
            intro after found
            rw [tokens_csi found]
            have later : after.length ≤ text.length := by
              rw [found.marked, List.length_append, List.length_append]
              omega
            have shorter : ∀ (q : AnsiParser) (later : List Char), later.length ≤ after.length →
                q.Sound → q.state = .ground → q.Does later (tokens later) := by
              intro q later less sound ground
              exact ih later (by omega) q sound ground
            have opened : p.feedAll ('\x1b' :: '[' :: text) =
                ({ new with state := .csi } : AnsiParser).feedAll text := by
              rw [feedAll_silent (feed_escape ground)]
              exact feedAll_silent feed_bracket
            apply Does.congr opened
            cases isPrivate with
            | false =>
              rw [found.marked]
              exact does_scanned csi_reading found.params found.stops found.plain shorter
            | true =>
              have marked := feed_mark (p := { new with state := .csi }) rfl ⟨rfl, rfl, rfl⟩
              rw [found.marked]
              apply Does.congr (feedAll_silent marked)
              exact does_scanned privateMark_reading found.params found.stops nofun shorter
          · rw [tokens_escape_other bracket]
            apply Does.congr _ (ih (d :: text) short new new_sound rfl)
            rw [feedAll_silent (feed_escape ground)]
            exact feedAll_again new_sound rfl (if_neg bracket)
      · rw [tokens_print escape]
        apply @Does.cons _ _ _ (.print c) _ _ not_false (feedAll_cons (feed_print ground escape))
        exact ih text short p sound ground

/-- The calls that a text comes in, and what it means: the same is done exactly when no mark comes
late. -/
theorem feedCalls_tokens_iff (calls : List (List Char)) :
    (∃ q, new.feedCalls calls = some (actions calls.flatten, q)) ↔
      ∀ t ∈ tokens calls.flatten, ¬t.Late := by
  apply Exists.elim (does_tokens calls.flatten.length calls.flatten le_rfl new new_sound rfl)
  intro done does
  apply Exists.elim does
  intro q does
  rw [feedCalls_flatten, does.1]
  constructor
  · intro same t mem late
    apply Exists.elim same
    intro r same
    have less := does.2.2.2 ⟨t, mem, late⟩
    rw [(Prod.mk.inj (Option.some.inj same)).1, actions] at less
    exact absurd less (lt_irrefl _)
  · intro none
    rw [does.2.2.1 none]
    exact ⟨q, rfl⟩

/-- A mark behind a zero: the sequence is taken as a private one. -/
theorem feedCalls_zero_mark :
    (new.feedCalls ["\x1b[0?25h".toList]).map Prod.fst = some [.showCursor true] ∧
      actions "\x1b[0?25h".toList = [.print '?', .print '2', .print '5', .print 'h'] := by
  constructor
  · decide
  · have meant : tokens "\x1b[0?25h".toList = [.abandoned false ['0'] '?', .print '?', .print '2',
        .print '5', .print 'h'] := by
      have scanned : Scanned ['0', '?', '2', '5', 'h'] false ['0'] ['?', '2', '5', 'h'] :=
        ⟨rfl, by simp [isParamChar], by simp [isParamChar], by simp⟩
      show tokens ('\x1b' :: '[' :: ['0', '?', '2', '5', 'h']) = _
      rw [tokens_csi scanned]
      simp [scannedTokens, isFinal, tokens_print]
    rw [actions, meant]
    rfl

end Zaytos.Terminal.AnsiParser
