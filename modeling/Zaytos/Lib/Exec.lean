import Mathlib.Order.Basic

set_option autoImplicit false

/-! Checked computations.

A computation returns a value, refuses with an error of its own, or faults. A fault
stands for everything the language stops a program at: an arithmetic overflow, a division
by zero, an index or a slice out of range. It carries nothing, because nothing after it
runs. `Result` is such a computation over data it only reads; `Exec` also carries a state
that it rewrites in place, so an error leaves behind whatever was written before it. -/
namespace Zaytos

inductive Result (ε α : Type) where
  | fault
  | err (e : ε)
  | ok (a : α)
  deriving DecidableEq, Repr

namespace Result

variable {ε ε' α β : Type}

protected def bind (r : Result ε α) (f : α → Result ε β) : Result ε β :=
  match r with
  | fault => fault
  | err e => err e
  | ok a => f a

instance : Monad (Result ε) where
  pure := ok
  bind := Result.bind

instance : MonadLift Option (Result ε) where
  monadLift
    | some a => ok a
    | none => fault

@[simp] theorem pure_eq (a : α) : (pure a : Result ε α) = ok a := rfl
@[simp] theorem ok_bind (a : α) (f : α → Result ε β) : (ok a >>= f) = f a := rfl
@[simp] theorem err_bind (e : ε) (f : α → Result ε β) : (err e >>= f) = err e := rfl
@[simp] theorem fault_bind (f : α → Result ε β) : (fault >>= f) = fault := rfl
@[simp] theorem lift_some (a : α) : (liftM (some a) : Result ε α) = ok a := rfl
@[simp] theorem lift_none : (liftM (none : Option α) : Result ε α) = fault := rfl

theorem lift_eq_ok {o : Option α} {a : α} : (liftM o : Result ε α) = ok a ↔ o = some a := by
  cases o <;> simp

theorem lift_ne_err {o : Option α} {e : ε} : (liftM o : Result ε α) ≠ err e := by
  cases o <;> simp

def any (r : Result ε α) (test : α → Bool) : Bool :=
  match r with
  | ok a => test a
  | _ => false

theorem any_eq_true {r : Result ε α} {test : α → Bool} :
    r.any test = true ↔ ∃ a, r = ok a ∧ test a = true := by
  cases r <;> simp [any]

/-- Refuse with `e` when `c` holds. -/
def rejectIf (c : Prop) [Decidable c] (e : ε) : Result ε Unit :=
  if c then err e else ok ()

@[simp] theorem rejectIf_bind (c : Prop) [Decidable c] (e : ε) (f : Unit → Result ε β) :
    (rejectIf c e >>= f) = if c then err e else f () := by
  unfold rejectIf
  split <;> rfl

/-- `ok_or`: an absent value becomes the caller's error. -/
def okOr (r : Result Unit α) (e : ε) : Result ε α :=
  match r with
  | fault => fault
  | err () => err e
  | ok a => ok a

@[simp] theorem okOr_ok (a : α) (e : ε) : okOr (ok a) e = ok a := rfl
@[simp] theorem okOr_err (u : Unit) (e : ε) : okOr (err u : Result Unit α) e = err e := rfl
@[simp] theorem okOr_fault (e : ε) : okOr (fault : Result Unit α) e = fault := rfl

/-- `?` after `map_err`: the callee's error becomes the caller's. -/
def mapErr (g : ε → ε') (r : Result ε α) : Result ε' α :=
  match r with
  | fault => fault
  | err e => err (g e)
  | ok a => ok a

theorem bind_eq_ok {r : Result ε α} {f : α → Result ε β} {b : β} :
    (r >>= f) = ok b ↔ ∃ a, r = ok a ∧ f a = ok b := by
  cases r <;> simp

theorem bind_eq_err {r : Result ε α} {f : α → Result ε β} {e : ε} :
    (r >>= f) = err e ↔ r = err e ∨ ∃ a, r = ok a ∧ f a = err e := by
  cases r <;> simp

theorem rejectIf_bind_eq_ok {c : Prop} [Decidable c] {e : ε} {f : Unit → Result ε β} {b : β} :
    (rejectIf c e >>= f) = ok b ↔ ¬ c ∧ f () = ok b := by
  rw [rejectIf_bind]
  split <;> simp_all

theorem okOr_eq_ok {r : Result Unit α} {e : ε} {a : α} : okOr r e = ok a ↔ r = ok a := by
  cases r <;> simp

def isOk : Result ε α → Bool
  | ok _ => true
  | err _ | fault => false

theorem isOk_iff {r : Result ε α} : r.isOk = true ↔ ∃ a, r = ok a := by
  cases r <;> simp [isOk]

theorem foldlM_ok {l : List α} {f : β → α → Result ε β} {b r : β} (P : List α → β → Prop)
    (start : P [] b)
    (step : ∀ done a rest b b', l = done ++ a :: rest → P done b → f b a = ok b' →
      P (done ++ [a]) b')
    (loop : l.foldlM f b = ok r) : P l r := by
  suffices all : ∀ rest done b, l = done ++ rest → P done b → rest.foldlM f b = ok r → P l r from
    all l [] b rfl start loop
  intro rest
  induction rest with
  | nil =>
    intro done b list holds loop
    cases loop
    rw [list, List.append_nil]
    exact holds
  | cons a rest ih =>
    intro done b list holds loop
    rw [List.foldlM_cons, bind_eq_ok] at loop
    obtain ⟨b', first, loop⟩ := loop
    exact ih (done ++ [a]) b' (by rw [list, List.append_assoc]; rfl)
      (step done a rest b b' list holds first) loop

/-- The computation does not fault: a value satisfies `Q`, an error satisfies `E`. -/
def Sat (r : Result ε α) (Q : α → Prop) (E : ε → Prop) : Prop :=
  match r with
  | fault => False
  | err e => E e
  | ok a => Q a

@[simp] theorem sat_ok (a : α) (Q : α → Prop) (E : ε → Prop) : Sat (ok a) Q E ↔ Q a := Iff.rfl
@[simp] theorem sat_err (e : ε) (Q : α → Prop) (E : ε → Prop) : Sat (err e) Q E ↔ E e := Iff.rfl
@[simp] theorem sat_fault (Q : α → Prop) (E : ε → Prop) : ¬ Sat (fault) Q E := id

@[simp] theorem sat_bind (r : Result ε α) (f : α → Result ε β) (Q : β → Prop) (E : ε → Prop) :
    Sat (r >>= f) Q E ↔ Sat r (fun a => Sat (f a) Q E) E := by
  cases r <;> rfl

@[simp] theorem sat_lift (o : Option α) (Q : α → Prop) (E : ε → Prop) :
    Sat (liftM o : Result ε α) Q E ↔ ∃ a, o = some a ∧ Q a := by
  cases o <;> simp

@[simp] theorem sat_rejectIf (c : Prop) [Decidable c] (e : ε) (Q : Unit → Prop) (E : ε → Prop) :
    Sat (rejectIf c e) Q E ↔ (c → E e) ∧ (¬ c → Q ()) := by
  unfold rejectIf
  split <;> simp_all

theorem Sat.mono {r : Result ε α} {Q Q' : α → Prop} {E E' : ε → Prop} (h : Sat r Q E)
    (value : ∀ a, r = ok a → Q a → Q' a) (error : ∀ e, r = err e → E e → E' e) : Sat r Q' E' := by
  cases r with
  | fault => exact h.elim
  | err e => exact error e rfl h
  | ok a => exact value a rfl h

theorem Sat.okOr {r : Result Unit α} {e : ε} {Q : α → Prop} {E : ε → Prop}
    (h : Sat r Q (fun _ => E e)) : Sat (r.okOr e) Q E := by
  cases r <;> exact h

theorem Sat.ne_fault {r : Result ε α} {Q : α → Prop} {E : ε → Prop} (h : Sat r Q E) :
    r ≠ fault := by
  rintro rfl
  exact h

abbrev Total (r : Result ε α) : Prop := Sat r (fun _ => True) (fun _ => True)

theorem total_iff_ne {r : Result ε α} : Total r ↔ r ≠ fault := by
  cases r <;> simp [Total]

end Result

inductive Outcome (σ ε α : Type) where
  | fault
  | err (e : ε) (s : σ)
  | ok (a : α) (s : σ)

def Outcome.state {σ ε α : Type} : Outcome σ ε α → Option σ
  | .fault => none
  | .err _ s => some s
  | .ok _ s => some s

/-- Whether there is a value, and one with the property in the state that is left. -/
def Outcome.any {σ ε α : Type} (out : Outcome σ ε α) (test : α → σ → Bool) : Bool :=
  match out with
  | .ok a s => test a s
  | _ => false

theorem Outcome.any_eq_true {σ ε α : Type} {out : Outcome σ ε α} {test : α → σ → Bool} :
    out.any test = true ↔ ∃ a s, out = .ok a s ∧ test a s = true := by
  cases out with
  | fault => simp [Outcome.any]
  | err e s => simp [Outcome.any]
  | ok a s =>
    constructor
    · intro passes
      exact ⟨a, s, rfl, passes⟩
    · intro found
      obtain ⟨a', s', same, passes⟩ := found
      cases same
      exact passes

def Exec (σ ε α : Type) := σ → Outcome σ ε α

namespace Exec

variable {σ ε α β : Type}

protected def bind (m : Exec σ ε α) (f : α → Exec σ ε β) : Exec σ ε β := fun s =>
  match m s with
  | .fault => .fault
  | .err e t => .err e t
  | .ok a t => f a t

instance : Monad (Exec σ ε) where
  pure a := fun s => .ok a s
  bind := Exec.bind

instance : MonadLift Option (Exec σ ε) where
  monadLift
    | some a => fun s => .ok a s
    | none => fun _ => .fault

def read (f : σ → Result ε α) : Exec σ ε α := fun s =>
  match f s with
  | .fault => .fault
  | .err e => .err e s
  | .ok a => .ok a s

def fail (e : ε) : Exec σ ε α := fun s => .err e s

def rejectIf (c : Prop) [Decidable c] (e : ε) : Exec σ ε Unit := fun s =>
  if c then .err e s else .ok () s

/-- Stop the program when `c` holds. -/
def faultIf (c : Prop) [Decidable c] : Exec σ ε Unit := fun s => if c then .fault else .ok () s

theorem bind_apply (m : Exec σ ε α) (f : α → Exec σ ε β) (s : σ) :
    (m >>= f) s = match m s with
      | .fault => .fault
      | .err e t => .err e t
      | .ok a t => f a t := rfl

@[simp] theorem pure_apply (a : α) (s : σ) : (pure a : Exec σ ε α) s = .ok a s := rfl
@[simp] theorem fail_apply (e : ε) (s : σ) : (fail e : Exec σ ε α) s = .err e s := rfl
@[simp] theorem lift_some_apply (a : α) (s : σ) :
    (liftM (some a) : Exec σ ε α) s = .ok a s := rfl
@[simp] theorem lift_none_apply (s : σ) :
    (liftM (none : Option α) : Exec σ ε α) s = .fault := rfl

theorem bind_of_ok {m : Exec σ ε α} {f : α → Exec σ ε β} {s t : σ} {a : α}
    (h : m s = .ok a t) : (m >>= f) s = f a t := by
  simp only [bind_apply, h]

theorem bind_of_err {m : Exec σ ε α} {f : α → Exec σ ε β} {s t : σ} {e : ε}
    (h : m s = .err e t) : (m >>= f) s = .err e t := by
  simp only [bind_apply, h]

theorem bind_of_fault {m : Exec σ ε α} {f : α → Exec σ ε β} {s : σ}
    (h : m s = .fault) : (m >>= f) s = .fault := by
  simp only [bind_apply, h]

theorem bind_eq_ok {m : Exec σ ε α} {f : α → Exec σ ε β} {s t : σ} {b : β} :
    (m >>= f) s = .ok b t ↔ ∃ a u, m s = .ok a u ∧ f a u = .ok b t := by
  rw [bind_apply]
  cases m s <;> simp [and_assoc]

theorem bind_eq_err {m : Exec σ ε α} {f : α → Exec σ ε β} {s t : σ} {e : ε} :
    (m >>= f) s = .err e t ↔ m s = .err e t ∨ ∃ a u, m s = .ok a u ∧ f a u = .err e t := by
  rw [bind_apply]
  cases m s <;> simp [and_assoc]

theorem read_eq_ok {f : σ → Result ε α} {s t : σ} {a : α} :
    read f s = .ok a t ↔ f s = .ok a ∧ t = s := by
  unfold read
  cases f s <;> simp [eq_comm]

theorem read_eq_err {f : σ → Result ε α} {s t : σ} {e : ε} :
    read f s = .err e t ↔ f s = .err e ∧ t = s := by
  unfold read
  cases f s <;> simp [eq_comm]

theorem read_of_ok {f : σ → Result ε α} {s : σ} {a : α} (h : f s = .ok a) :
    read f s = .ok a s := read_eq_ok.mpr ⟨h, rfl⟩

theorem read_of_err {f : σ → Result ε α} {s : σ} {e : ε} (h : f s = .err e) :
    read f s = .err e s := read_eq_err.mpr ⟨h, rfl⟩

theorem lift_eq_ok {o : Option α} {s t : σ} {a : α} :
    (liftM o : Exec σ ε α) s = .ok a t ↔ o = some a ∧ t = s := by
  cases o <;> simp [eq_comm]

theorem lift_ne_err {o : Option α} {s t : σ} {e : ε} :
    (liftM o : Exec σ ε α) s ≠ .err e t := by
  cases o <;> simp

theorem rejectIf_eq_ok {c : Prop} [Decidable c] {e : ε} {s t : σ} {u : Unit} :
    (rejectIf c e : Exec σ ε Unit) s = .ok u t ↔ ¬ c ∧ t = s := by
  unfold rejectIf
  split <;> simp_all [eq_comm]

theorem rejectIf_eq_err {c : Prop} [Decidable c] {e e' : ε} {s t : σ} :
    (rejectIf c e : Exec σ ε Unit) s = .err e' t ↔ c ∧ e' = e ∧ t = s := by
  unfold rejectIf
  split <;> simp_all [eq_comm]

theorem rejectIf_of_not {c : Prop} [Decidable c] {e : ε} {s : σ} (h : ¬ c) :
    (rejectIf c e : Exec σ ε Unit) s = .ok () s := rejectIf_eq_ok.mpr ⟨h, rfl⟩

theorem rejectIf_of {c : Prop} [Decidable c] {e : ε} {s : σ} (h : c) :
    (rejectIf c e : Exec σ ε Unit) s = .err e s := rejectIf_eq_err.mpr ⟨h, rfl, rfl⟩

/-- The run does not fault; a return satisfies `Q`, a refusal satisfies `E`, each together
with the state it leaves. -/
def Wp (m : Exec σ ε α) (s : σ) (Q : α → σ → Prop) (E : ε → σ → Prop) : Prop :=
  match m s with
  | .fault => False
  | .err e t => E e t
  | .ok a t => Q a t

@[simp] theorem wp_pure (a : α) (s : σ) (Q : α → σ → Prop) (E : ε → σ → Prop) :
    Wp (pure a) s Q E ↔ Q a s := Iff.rfl

@[simp] theorem wp_fail (e : ε) (s : σ) (Q : α → σ → Prop) (E : ε → σ → Prop) :
    Wp (fail e) s Q E ↔ E e s := Iff.rfl

@[simp] theorem wp_bind (m : Exec σ ε α) (f : α → Exec σ ε β) (s : σ) (Q : β → σ → Prop)
    (E : ε → σ → Prop) : Wp (m >>= f) s Q E ↔ Wp m s (fun a t => Wp (f a) t Q E) E := by
  unfold Wp
  rw [bind_apply]
  cases m s <;> rfl

@[simp] theorem wp_read (f : σ → Result ε α) (s : σ) (Q : α → σ → Prop) (E : ε → σ → Prop) :
    Wp (read f) s Q E ↔ (f s).Sat (fun a => Q a s) (fun e => E e s) := by
  unfold Wp read
  cases f s <;> rfl

@[simp] theorem wp_lift (o : Option α) (s : σ) (Q : α → σ → Prop) (E : ε → σ → Prop) :
    Wp (liftM o : Exec σ ε α) s Q E ↔ ∃ a, o = some a ∧ Q a s := by
  cases o <;> simp [Wp]

@[simp] theorem wp_rejectIf (c : Prop) [Decidable c] (e : ε) (s : σ) (Q : Unit → σ → Prop)
    (E : ε → σ → Prop) : Wp (rejectIf c e) s Q E ↔ (c → E e s) ∧ (¬ c → Q () s) := by
  by_cases h : c <;> simp [Wp, rejectIf, h]

@[simp] theorem wp_faultIf (c : Prop) [Decidable c] (s : σ) (Q : Unit → σ → Prop) (E : ε → σ → Prop) :
    Wp (faultIf c) s Q E ↔ ¬ c ∧ Q () s := by
  by_cases h : c <;> simp [Wp, faultIf, h]

theorem Wp.mono {m : Exec σ ε α} {s : σ} {Q Q' : α → σ → Prop} {E E' : ε → σ → Prop}
    (h : Wp m s Q E) (value : ∀ a t, m s = .ok a t → Q a t → Q' a t)
    (error : ∀ e t, m s = .err e t → E e t → E' e t) : Wp m s Q' E' := by
  unfold Wp at h ⊢
  cases run : m s with
  | fault => rw [run] at h; exact h.elim
  | err e t => rw [run] at h; exact error e t run h
  | ok a t => rw [run] at h; exact value a t run h

/-- Like `Wp`, for a run that may fault. -/
def Wlp (m : Exec σ ε α) (s : σ) (Q : α → σ → Prop) (E : ε → σ → Prop) : Prop :=
  match m s with
  | .fault => True
  | .err e t => E e t
  | .ok a t => Q a t

theorem Wp.wlp {m : Exec σ ε α} {s : σ} {Q : α → σ → Prop} {E : ε → σ → Prop} (h : Wp m s Q E) :
    Wlp m s Q E := by
  unfold Wp at h
  unfold Wlp
  cases run : m s with
  | fault => trivial
  | err e t => rwa [run] at h
  | ok a t => rwa [run] at h

@[simp] theorem wlp_bind (m : Exec σ ε α) (f : α → Exec σ ε β) (s : σ) (Q : β → σ → Prop)
    (E : ε → σ → Prop) : Wlp (m >>= f) s Q E ↔ Wlp m s (fun a t => Wlp (f a) t Q E) E := by
  unfold Wlp
  rw [bind_apply]
  cases m s <;> rfl

@[simp] theorem wlp_lift (o : Option α) (s : σ) (Q : α → σ → Prop) (E : ε → σ → Prop) :
    Wlp (liftM o : Exec σ ε α) s Q E ↔ ∀ a, o = some a → Q a s := by
  cases o <;> simp [Wlp]

@[simp] theorem wlp_read (f : σ → Result ε α) (s : σ) (Q : α → σ → Prop) (E : ε → σ → Prop) :
    Wlp (read f) s Q E ↔ (∀ a, f s = .ok a → Q a s) ∧ ∀ e, f s = .err e → E e s := by
  unfold Wlp read
  cases f s <;> simp

@[simp] theorem wlp_rejectIf (c : Prop) [Decidable c] (e : ε) (s : σ) (Q : Unit → σ → Prop)
    (E : ε → σ → Prop) : Wlp (rejectIf c e) s Q E ↔ (c → E e s) ∧ (¬ c → Q () s) := by
  unfold Wlp rejectIf
  by_cases holds : c <;> simp [holds]

theorem Wlp.mono {m : Exec σ ε α} {s : σ} {Q Q' : α → σ → Prop} {E E' : ε → σ → Prop}
    (h : Wlp m s Q E) (value : ∀ a t, m s = .ok a t → Q a t → Q' a t)
    (error : ∀ e t, m s = .err e t → E e t → E' e t) : Wlp m s Q' E' := by
  unfold Wlp at h ⊢
  cases run : m s with
  | fault => trivial
  | err e t => rw [run] at h; exact error e t run h
  | ok a t => rw [run] at h; exact value a t run h

theorem Wlp.of_ok {m : Exec σ ε α} {s t : σ} {a : α} {Q : α → σ → Prop} {E : ε → σ → Prop}
    (h : Wlp m s Q E) (run : m s = .ok a t) : Q a t := by
  unfold Wlp at h
  rwa [run] at h

theorem Wlp.of_err {m : Exec σ ε α} {s t : σ} {e : ε} {Q : α → σ → Prop} {E : ε → σ → Prop}
    (h : Wlp m s Q E) (run : m s = .err e t) : E e t := by
  unfold Wlp at h
  rwa [run] at h

theorem Wlp.of_state {m : Exec σ ε α} {s t : σ} {P : σ → Prop} (h : Wlp m s (fun _ => P) (fun _ => P))
    (left : (m s).state = some t) : P t := by
  unfold Wlp at h
  cases run : m s with
  | fault =>
    rw [run] at left
    cases left
  | err e u =>
    rw [run] at h left
    rwa [← Option.some.inj left]
  | ok a u =>
    rw [run] at h left
    rwa [← Option.some.inj left]

def within {τ : Type} (get : σ → τ) (set : σ → τ → σ) (m : Exec τ ε α) : Exec σ ε α := fun s =>
  match m (get s) with
  | .fault => .fault
  | .err e t => .err e (set s t)
  | .ok a t => .ok a (set s t)

@[simp] theorem wp_within {τ : Type} (get : σ → τ) (set : σ → τ → σ) (m : Exec τ ε α) (s : σ)
    (Q : α → σ → Prop) (E : ε → σ → Prop) :
    Wp (within get set m) s Q E ↔ Wp m (get s) (fun a t => Q a (set s t)) fun e t => E e (set s t) := by
  unfold Wp within
  cases m (get s) <;> rfl

abbrev Total (m : Exec σ ε α) (s : σ) : Prop := Wp m s (fun _ _ => True) (fun _ _ => True)

theorem Wlp.wp {m : Exec σ ε α} {s : σ} {Q : α → σ → Prop} {E : ε → σ → Prop} (h : Wlp m s Q E)
    (total : Total m s) : Wp m s Q E :=
  total.mono (fun _ _ run _ => h.of_ok run) (fun _ _ run _ => h.of_err run)

theorem total_iff_ne {m : Exec σ ε α} {s : σ} : Total m s ↔ m s ≠ .fault := by
  unfold Total Wp
  cases m s <;> simp

end Exec

end Zaytos
