/-
# Programs that fail and keep a log

A program in `Logged ι ε` returns a value or fails with an error, and notes items in a log as it
goes; a failure does not take away what was noted before it.  With a note at each use of a resource
the log says what a run did, whichever way it ended.

`Meets` compares such a program with one that keeps no log: the two have the same result, every
item of the log is allowed, every error is of the kind expected, and a value comes with a
postcondition.  Its rules follow the steps of a `do` block, so that a copy of a program that only
adds notes is compared with the original line by line.
-/
import Mathlib.Control.Monad.Writer

universe u

/-- A program with a log of `ι` that may fail with `ε`. -/
abbrev Logged (ι ε : Type u) := ExceptT ε (Writer (List ι))

namespace Logged

variable {ι ε α β : Type u}

/-- What the program returns. -/
def result (m : Logged ι ε α) : Except ε α := m.run.run.1

/-- What it noted, in order. -/
def log (m : Logged ι ε α) : List ι := m.run.run.2

/-- Put an item into the log. -/
def note (i : ι) : Logged ι ε PUnit := ExceptT.lift (tell [i])

/-! ## 1. What a sequence of programs does -/

theorem result_bind (m : Logged ι ε α) (f : α → Logged ι ε β) :
    (m >>= f).result = m.result >>= fun a => (f a).result := by
  rcases m with ⟨e | a, l⟩
  · rfl
  · rfl

/-- The second program adds to the log, if it is reached. -/
theorem log_bind (m : Logged ι ε α) (f : α → Logged ι ε β) : (m >>= f).log =
    m.log ++ match m.result with
      | .ok a => (f a).log
      | .error _ => [] := by
  rcases m with ⟨e | a, l⟩
  · rfl
  · rfl

/-! ## 2. Comparison with a program that keeps no log -/

/-- **`m` does what `x` does**, notes only items in `P`, fails only with errors in `F` and returns
only values in `Q`. -/
structure Meets (P : ι → Prop) (F : ε → Prop) (m : Logged ι ε α) (x : Except ε α)
    (Q : α → Prop) : Prop where
  result : m.result = x
  log : ∀ i ∈ m.log, P i
  value : ∀ a, x = .ok a → Q a
  error : ∀ e, x = .error e → F e

variable {P : ι → Prop} {F : ε → Prop} {m : Logged ι ε α} {x : Except ε α} {Q : α → Prop}

theorem Meets.pure {a : α} (h : Q a) : Meets P F (pure a) (pure a) Q where
  result := rfl
  log := fun _ hi => absurd hi List.not_mem_nil
  value := fun _ ha => Except.ok.inj ha ▸ h
  error := nofun

/-- A step that keeps no log. -/
theorem Meets.ofExcept (hvalue : ∀ a, x = .ok a → Q a) (herror : ∀ e, x = .error e → F e) :
    Meets P F (ofExcept x) x Q := by
  cases x with
  | ok a => exact ⟨rfl, fun _ hi => absurd hi List.not_mem_nil, hvalue, herror⟩
  | error e => exact ⟨rfl, fun _ hi => absurd hi List.not_mem_nil, hvalue, herror⟩

/-- **Sequencing.** -/
theorem Meets.bind {f : α → Logged ι ε β} {g : α → Except ε β} {R : β → Prop}
    (hm : Meets P F m x Q) (hf : ∀ a, Q a → Meets P F (f a) (g a) R) :
    Meets P F (m >>= f) (x >>= g) R := by
  cases x with
  | error e =>
    refine ⟨?_, ?_, nofun, fun e' he => Except.error.inj he ▸ hm.error e rfl⟩
    · rw [result_bind, hm.result]
      rfl
    · rw [log_bind, hm.result, List.append_nil]
      exact hm.log
  | ok a =>
    have hrest := hf a (hm.value a rfl)
    refine ⟨?_, ?_, hrest.value, hrest.error⟩
    · rw [result_bind, hm.result]
      exact hrest.result
    · rw [log_bind, hm.result]
      exact List.forall_mem_append.mpr ⟨hm.log, hrest.log⟩

/-- A note stands beside the original. -/
theorem Meets.note {i : ι} (hi : P i) (hm : Meets P F m x Q) :
    Meets P F (note i >>= fun _ => m) x Q := by
  refine ⟨?_, ?_, hm.value, hm.error⟩
  · rw [result_bind]
    exact hm.result
  · rw [log_bind]
    exact List.forall_mem_cons.mpr ⟨hi, hm.log⟩

/-- A choice that both make alike. -/
theorem Meets.ite {c : Prop} [Decidable c] {m' : Logged ι ε α} {x' : Except ε α}
    (ht : c → Meets P F m x Q) (hf : ¬ c → Meets P F m' x' Q) :
    Meets P F (if c then m else m') (if c then x else x') Q := by
  by_cases hc : c
  · rw [if_pos hc, if_pos hc]
    exact ht hc
  · rw [if_neg hc, if_neg hc]
    exact hf hc

theorem Meets.weaken {Q' : α → Prop} (hm : Meets P F m x Q) (h : ∀ a, Q a → Q' a) :
    Meets P F m x Q' :=
  ⟨hm.result, hm.log, fun a ha => h a (hm.value a ha), hm.error⟩

/-- **It ends in one of two ways.** -/
theorem Meets.ends (hm : Meets P F m x Q) :
    (∃ a, m.result = .ok a ∧ Q a) ∨ ∃ e, m.result = .error e ∧ F e := by
  rw [hm.result]
  cases x with
  | ok a => exact .inl ⟨a, rfl, hm.value a rfl⟩
  | error e => exact .inr ⟨e, rfl, hm.error e rfl⟩

end Logged
