/-!
# Checked computation

Integers that a feed controls reach sums, differences and list positions. A computation over
them either has a value or stops at the first **fault**: a result outside the width it is stored
in, a position past the end of a list, a broken precondition. `Checked α` is such a computation;
`Attempt ε α` is one that may also be *refused*, for a cause `ε` of the domain. A fault is a
defect, a refusal is an answer.

* `Checked.int32`, `Checked.int64`, `Checked.word32`, `Checked.word64`: the value, if it fits.
* `Checked.nth`, `Checked.set`, `Checked.eraseAt`: the element at a position, read, replaced or
  taken out.
* `Checked.int32_eq_ok_iff`, `Checked.nth_eq_ok_iff`: when a check succeeds.
* `Checked.bind_eq_ok_iff`, `Attempt.bind_eq_ok_iff`, `Attempt.lift_bind_eq_ok_iff`: how a
  computation in two parts comes to its end.
* `Checked.bind_eq_error_iff`: which part meets a fault.
* `Checked.Ends`: how a computation ends, with a value or at a fault.
-/

namespace LiveTimetable

/-- What stops a computation that should have had a value. -/
inductive Fault where
  /-- An arithmetic result does not fit its width. -/
  | overflow
  /-- A position lies past the end of a list. -/
  | outOfBounds
  /-- A precondition that the caller promised does not hold. -/
  | assertion
  deriving DecidableEq

/-- A value, or the fault met on the way to it. -/
abbrev Checked (α : Type) := Except Fault α

/-- A checked computation that may be refused with an error `ε` of the domain. -/
abbrev Attempt (ε α : Type) := ExceptT ε (Except Fault) α

namespace Checked

/-- `x` as a signed 32-bit integer. -/
def int32 (x : Int) : Checked Int32 :=
  if -2147483648 ≤ x ∧ x ≤ 2147483647 then .ok (Int32.ofInt x) else .error .overflow

/-- `x`, if it is a signed 64-bit integer. -/
def int64 (x : Int) : Checked Int :=
  if -9223372036854775808 ≤ x ∧ x ≤ 9223372036854775807 then .ok x else .error .overflow

/-- `n`, if it is an unsigned 32-bit integer. -/
def word32 (n : Nat) : Checked Nat :=
  if n < 4294967296 then .ok n else .error .overflow

/-- `n`, if it is an unsigned 64-bit integer. -/
def word64 (n : Nat) : Checked Nat :=
  if n < 18446744073709551616 then .ok n else .error .overflow

/-- The element of `xs` at position `i`. -/
def nth {α : Type} (xs : List α) (i : Nat) : Checked α :=
  match xs[i]? with
  | some x => .ok x
  | none => .error .outOfBounds

/-- `xs` with `x` at position `i`. -/
def set {α : Type} (xs : List α) (i : Nat) (x : α) : Checked (List α) :=
  if i < xs.length then .ok (xs.set i x) else .error .outOfBounds

/-- `xs` without the element at position `i`. -/
def eraseAt {α : Type} (xs : List α) (i : Nat) : Checked (List α) :=
  if i < xs.length then .ok (xs.eraseIdx i) else .error .outOfBounds

theorem int32_eq_ok_iff {x : Int} {y : Int32} : int32 x = .ok y ↔ y.toInt = x := by
  unfold int32
  have hlo := y.le_toInt
  have hhi := y.toInt_lt
  constructor
  · intro h
    split at h
    · rename_i hx
      obtain rfl := Except.ok.inj h
      exact Int32.toInt_ofInt_of_le (by omega) (by omega)
    · cases h
  · rintro rfl
    rw [if_pos (by omega), Int32.ofInt_toInt]

theorem nth_eq_ok_iff {α : Type} {xs : List α} {i : Nat} {x : α} :
    Checked.nth xs i = .ok x ↔ xs[i]? = some x := by
  unfold Checked.nth
  cases xs[i]? <;> simp

theorem set_of_lt {α : Type} {xs : List α} {i : Nat} (x : α) (h : i < xs.length) :
    Checked.set xs i x = .ok (xs.set i x) := if_pos h

theorem eraseAt_of_lt {α : Type} {xs : List α} {i : Nat} (h : i < xs.length) :
    Checked.eraseAt xs i = .ok (xs.eraseIdx i) := if_pos h

/-! ## In two parts -/

theorem error_eq_error_iff {α : Type} {fault fault' : Fault} :
    (.error fault : Checked α) = .error fault' ↔ fault' = fault := by
  rw [Except.error.injEq, eq_comm]

@[simp] theorem ok_bind {α β : Type} (a : α) (f : α → Checked β) :
    ((Except.ok a : Checked α) >>= f) = f a := rfl

@[simp] theorem error_bind {α β : Type} (fault : Fault) (f : α → Checked β) :
    ((Except.error fault : Checked α) >>= f) = .error fault := rfl

@[simp] theorem pure_eq_ok {α : Type} (a : α) : (pure a : Checked α) = .ok a := rfl

theorem bind_eq_ok_iff {α β : Type} {x : Checked α} {f : α → Checked β} {r : β} :
    (x >>= f) = .ok r ↔ ∃ a, x = .ok a ∧ f a = .ok r := by
  cases x with
  | ok a =>
    constructor
    · intro h
      exact ⟨a, rfl, h⟩
    · rintro ⟨_, ⟨⟩, h⟩
      exact h
  | error fault =>
    constructor
    · intro h
      cases h
    · rintro ⟨_, h, -⟩
      cases h

theorem bind_eq_error_iff {α β : Type} {x : Checked α} {f : α → Checked β} {fault : Fault} :
    (x >>= f) = .error fault ↔ x = .error fault ∨ ∃ a, x = .ok a ∧ f a = .error fault := by
  cases x with
  | ok a =>
    constructor
    · intro h
      exact Or.inr ⟨a, rfl, h⟩
    · rintro (h | ⟨_, ⟨⟩, h⟩)
      · cases h
      · exact h
  | error fault' =>
    rw [error_bind]
    constructor
    · intro h
      cases h
      exact Or.inl rfl
    · rintro (h | ⟨_, h, -⟩)
      · cases h
        rfl
      · cases h

theorem map_eq_ok_iff {α β : Type} {x : Checked α} {f : α → β} {b : β} :
    x.map f = .ok b ↔ ∃ a, x = .ok a ∧ f a = b := by
  cases x with
  | error fault => exact iff_of_false nofun nofun
  | ok a =>
    constructor
    · intro h
      exact ⟨a, rfl, Except.ok.inj h⟩
    · rintro ⟨_, ⟨⟩, rfl⟩
      rfl

theorem map_eq_error_iff {α β : Type} {x : Checked α} {f : α → β} {fault : Fault} :
    x.map f = .error fault ↔ x = .error fault := by
  cases x with
  | ok a => exact iff_of_false nofun nofun
  | error fault' => exact error_eq_error_iff.trans error_eq_error_iff.symm

/-- Two computations in two parts each have the same to show, if their first parts have, and their
second parts from there. -/
theorem map_bind_congr {α α' β β' γ δ : Type} {x : Checked α} {x' : Checked α'} {f : α → γ}
    {f' : α' → γ} {g : α → Checked β} {g' : α' → Checked β'} {k : β → δ} {k' : β' → δ}
    (h : x.map f = x'.map f')
    (hg : ∀ a a', x = .ok a → x' = .ok a' → f a = f' a' → (g a).map k = (g' a').map k') :
    (x >>= g).map k = (x' >>= g').map k' := by
  cases x with
  | error fault =>
    cases x' with
    | error fault' =>
      cases h
      rfl
    | ok a' => cases h
  | ok a =>
    cases x' with
    | error fault' => cases h
    | ok a' => exact hg a a' rfl rfl (Except.ok.inj h)

/-! ## How a computation ends -/

/-- The computation has a value as `good` says, or stops at a fault as `bad` says. -/
def Ends {α : Type} (x : Checked α) (good : α → Prop) (bad : Fault → Prop) : Prop :=
  match x with
  | .ok a => good a
  | .error fault => bad fault

section Ends

variable {α β : Type} {x : Checked α} {good : α → Prop} {bad : Fault → Prop}

theorem ends_iff : x.Ends good bad ↔
    (∃ a, x = .ok a ∧ good a) ∨ ∃ fault, x = .error fault ∧ bad fault := by
  cases x with
  | ok a => simp only [Ends, Except.ok.injEq, exists_eq_left', reduceCtorEq, false_and,
      exists_false, or_false]
  | error fault => simp only [Ends, reduceCtorEq, false_and, exists_false, Except.error.injEq,
      exists_eq_left', false_or]

theorem Ends.ok_of_not_bad (h : x.Ends good bad) (hbad : ∀ fault, ¬ bad fault) :
    ∃ a, x = .ok a ∧ good a :=
  (ends_iff.mp h).resolve_right fun ⟨fault, _, hf⟩ => hbad fault hf

theorem Ends.mono {good' : α → Prop} {bad' : Fault → Prop} (h : x.Ends good bad)
    (hgood : ∀ a, good a → good' a) (hbad : ∀ fault, bad fault → bad' fault) :
    x.Ends good' bad' := by
  cases x with
  | ok a => exact hgood a h
  | error fault => exact hbad fault h

/-- A computation in two parts ends as the second part does, or at a fault of the first. -/
theorem Ends.bind {f : α → Checked β} {good' : β → Prop} (h : x.Ends good bad)
    (hf : ∀ a, good a → (f a).Ends good' bad) : (x >>= f).Ends good' bad := by
  cases x with
  | ok a => exact hf a h
  | error fault => exact h

end Ends

end Checked

namespace Attempt

variable {ε α β : Type}

@[simp] theorem run_pure (a : α) : (pure a : Attempt ε α).run = .ok (.ok a) := rfl

@[simp] theorem run_throw (e : ε) : (throw e : Attempt ε α).run = .ok (.error e) := rfl

/-- A checked part that has a value goes on with it. -/
@[simp] theorem lift_ok_bind (a : α) (f : α → Attempt ε β) :
    ((liftM (Except.ok a : Checked α) : Attempt ε α) >>= f) = f a := rfl

theorem bind_eq_ok_iff {x : Attempt ε α} {f : α → Attempt ε β} {r : β} :
    (x >>= f).run = .ok (.ok r) ↔ ∃ a, x.run = .ok (.ok a) ∧ (f a).run = .ok (.ok r) := by
  rw [ExceptT.run_bind, Checked.bind_eq_ok_iff]
  constructor
  · rintro ⟨result, hx, h⟩
    cases result with
    | ok a => exact ⟨a, hx, h⟩
    | error e => cases h
  · rintro ⟨a, hx, h⟩
    exact ⟨.ok a, hx, h⟩

theorem run_lift_eq_ok_iff {x : Checked α} {r : Except ε α} :
    (liftM x : Attempt ε α).run = .ok r ↔ ∃ a, x = .ok a ∧ r = .ok a := by
  cases x with
  | ok a =>
    constructor
    · intro h
      exact ⟨a, rfl, (Except.ok.inj h).symm⟩
    · rintro ⟨_, ⟨⟩, rfl⟩
      rfl
  | error fault =>
    constructor
    · intro h
      cases h
    · rintro ⟨_, h, -⟩
      cases h

/-- An attempt that begins with a checked part comes to its end where the rest does. -/
theorem lift_bind_eq_ok_iff {x : Checked α} {f : α → Attempt ε β} {r : Except ε β} :
    ((liftM x : Attempt ε α) >>= f).run = .ok r ↔ ∃ a, x = .ok a ∧ (f a).run = .ok r := by
  cases x with
  | ok a =>
    constructor
    · intro h
      exact ⟨a, rfl, h⟩
    · rintro ⟨_, ⟨⟩, h⟩
      exact h
  | error fault =>
    constructor
    · intro h
      cases h
    · rintro ⟨_, h, -⟩
      cases h

@[simp] theorem mk_ok_bind (a : α) (f : α → Attempt ε β) :
    ((ExceptT.mk (.ok (.ok a)) : Attempt ε α) >>= f) = f a := rfl

/-- Refusals are put into other words, faults are not. -/
theorem run_adapt_eq_ok_iff {ε' : Type} {f : ε → ε'} {x : Attempt ε α} {r : Except ε' α} :
    (ExceptT.adapt f x : Attempt ε' α).run = .ok r ↔ ∃ r', x.run = .ok r' ∧ r = r'.mapError f := by
  have hrun : (ExceptT.adapt f x : Attempt ε' α).run = Except.map (Except.mapError f) x.run := rfl
  rw [hrun]
  cases x.run with
  | ok r' =>
    constructor
    · intro h
      exact ⟨r', rfl, (Except.ok.inj h).symm⟩
    · rintro ⟨_, ⟨⟩, rfl⟩
      rfl
  | error fault =>
    constructor
    · intro h
      cases h
    · rintro ⟨_, h, -⟩
      cases h

end Attempt

end LiveTimetable
