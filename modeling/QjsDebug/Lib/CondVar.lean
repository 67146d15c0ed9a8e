/-
# Waiting on a condition variable

A waiter tests a predicate while it holds a mutex and, if the predicate tells it to, goes to
sleep and lets go of the mutex in one atomic step.  Between the test and that step it is in
the WINDOW.  Signallers change the predicate and notify; a notification wakes the waiter only
when it sleeps.  When the signallers hold the mutex they cannot meet the waiter in its window;
when they do not, a notification that comes in the window is lost.

`CondVar σ` reads the three things off a state: where the waiter is, whether the predicate
tells it to sleep, and whether some signaller has changed the predicate and is still to
notify.  `Safe` is the invariant "who sleeps, or is about to, has reason to, or will be
notified"; `Moves` lists the moves a program may make, and `Moves.safe` is the step rule.
Its one move with a condition is the notification.
-/
universe u

/-- Where a waiter is. -/
inductive Waiter
  /-- Not about to sleep. -/
  | away
  /-- The test told it to sleep; it holds the mutex. -/
  | window
  | asleep
  deriving DecidableEq

/-- One waiter on a condition variable, seen in the states `σ`. -/
structure CondVar (σ : Type u) where
  waiter : σ → Waiter
  /-- The predicate tells the waiter to sleep. -/
  blocked : σ → Bool
  /-- The predicate has been changed, the notification is still to come. -/
  due : σ → Bool

namespace CondVar

variable {σ : Type u} (V : CondVar σ)

/-- Who sleeps, or is about to, has reason to, or will be notified. -/
def Safe (s : σ) : Prop := V.waiter s ≠ .away → V.blocked s = true ∨ V.due s = true

/-- The notification is not lost: in the window it comes only while the waiter has reason to
sleep. -/
def heard (s : σ) : Bool := V.waiter s != .window || V.blocked s

/-- The moves of a program with a waiter and its signallers. -/
inductive Moves (s s' : σ) : Prop
  /-- The waiter is not about to sleep. -/
  | away (hw : V.waiter s' = .away) : Moves s s'
  /-- The waiter tests the predicate, which tells it to sleep. -/
  | test (hb : V.blocked s' = true) : Moves s s'
  /-- The waiter falls asleep, or does nothing, and a signaller does something else. -/
  | other (hw : V.waiter s' ≠ .away → V.waiter s ≠ .away)
      (hb : V.blocked s = true → V.blocked s' = true) (hd : V.due s = true → V.due s' = true) :
      Moves s s'
  /-- A signaller changes the predicate. -/
  | change (hd : V.due s' = true) : Moves s s'
  /-- A signaller notifies. -/
  | notify (hheard : V.heard s = true) (hasleep : V.waiter s = .asleep → V.waiter s' = .away)
      (haway : V.waiter s = .away → V.waiter s' = .away) (hb : V.blocked s' = V.blocked s) :
      Moves s s'

variable {V}

/-- **The step rule.** -/
theorem Moves.safe {s s' : σ} (h : V.Moves s s') (hs : V.Safe s) : V.Safe s' := by
  intro hw'
  cases h with
  | away hw => exact absurd hw hw'
  | test hb => exact Or.inl hb
  | other hw hb hd =>
    rcases hs (hw hw') with h | h
    · exact Or.inl (hb h)
    · exact Or.inr (hd h)
  | change hd => exact Or.inr hd
  | notify hheard hasleep haway hb =>
    refine Or.inl ?_
    cases hw : V.waiter s with
    | away => exact absurd (haway hw) hw'
    | asleep => exact absurd (hasleep hw) hw'
    | window =>
      rw [hb]
      simpa [heard, hw] using hheard

/-- Once nothing is due, whoever sleeps has reason to. -/
theorem Safe.blocked {s : σ} (h : V.Safe s) (hw : V.waiter s ≠ .away) (hd : V.due s = false) :
    V.blocked s = true := by
  rcases h hw with hb | hdue
  · exact hb
  · rw [hd] at hdue
    exact absurd hdue (by simp)

end CondVar
