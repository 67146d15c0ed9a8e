/-
# One writer at a time

A stream to which jobs are written piece by piece, one job after the other: a job begins when none
is being written, any positive part of what is left of it goes out at a time, and it ends when
nothing is left.  This is what a lock around every writer makes of a shared stream, whoever the
writers are and however their pieces are cut; a model of the writers is shown to be one of these
by a simulation (`StepSystem.Reachable.simulate`).
-/
import Mathlib.Data.List.Infix
import QjsDebug.Lib.StepSystem

universe u v

/-- The job being written with what is left of it, the stream, and the jobs begun so far. -/
structure Serial (κ : Type u) (β : Type v) where
  current : Option (κ × List β)
  stream : List β
  jobs : List κ

namespace Serial

variable {κ : Type u} {β : Type v} (out : κ → List β)

inductive Act (κ : Type u)
  | begins (k : κ)
  /-- So many pieces of what is left go out. -/
  | writes (n : Nat)
  | ends

def step (s : Serial κ β) : Act κ → Option (Serial κ β)
  | .begins k =>
    match s.current with
    | none => some { s with current := some (k, out k), jobs := s.jobs ++ [k] }
    | some _ => none
  | .writes n =>
    match s.current with
    | some (k, rest) =>
      some { s with current := some (k, rest.drop n), stream := s.stream ++ rest.take n }
    | none => none
  | .ends =>
    match s.current with
    | some (_, []) => some { s with current := none }
    | _ => none

/-- The empty stream at first. -/
def system : StepSystem (Serial κ β) (Act κ) where
  init s := s = { current := none, stream := [], jobs := [] }
  step := step out

/-- The stream holds every job whole but the one being written, which is the last and of which
what is left is missing. -/
def Whole (s : Serial κ β) : Prop :=
  match s.current with
  | none => s.stream = s.jobs.flatMap out
  | some (k, rest) => ∃ before written, s.jobs = before ++ [k] ∧ written ++ rest = out k ∧
      s.stream = before.flatMap out ++ written

variable {out} {s s' : Serial κ β}

theorem whole_step {a : Act κ} (h : s.Whole out) (hs : (system out).step s a = some s') :
    s'.Whole out := by
  cases a with
  | begins k =>
    simp only [system, step] at hs
    split at hs
    · rename_i hnone
      cases hs
      simp only [Whole, hnone] at h
      exact ⟨s.jobs, [], rfl, rfl, by rw [h, List.append_nil]⟩
    · cases hs
  | writes n =>
    simp only [system, step] at hs
    split at hs
    · rename_i k rest hcurrent
      cases hs
      simp only [Whole, hcurrent] at h
      obtain ⟨before, written, hjobs, hout, hstream⟩ := h
      refine ⟨before, written ++ rest.take n, hjobs, ?_, ?_⟩
      · rw [List.append_assoc, List.take_append_drop, hout]
      · simp only [hstream, List.append_assoc]
    · cases hs
  | ends =>
    simp only [system, step] at hs
    split at hs
    · rename_i k hcurrent
      cases hs
      simp only [Whole, hcurrent] at h
      obtain ⟨before, written, hjobs, hout, hstream⟩ := h
      show s.stream = s.jobs.flatMap out
      rw [hstream, hjobs, List.flatMap_append, List.flatMap_singleton, ← hout, List.append_nil]
    · cases hs

theorem whole_of_reachable (h : StepSystem.Reachable (system out) s) : s.Whole out := by
  refine h.invariant (I := fun s => s.Whole out) ?_ ?_
  · intro t ht
    cases ht
    rfl
  · intro t a t' hi _ ht
    exact whole_step hi ht

/-- The job being written, if there is one. -/
def running (s : Serial κ β) : List κ := (s.current.map Prod.fst).toList

/-- **Nothing is interleaved**: the stream is a prefix of the jobs in the order in which they began,
each whole; it has all those of them that have ended; and it is all of them when none is running. -/
theorem Whole.spec (h : s.Whole out) :
    s.stream <+: s.jobs.flatMap out ∧
      (∃ before, s.jobs = before ++ s.running ∧ before.flatMap out <+: s.stream) ∧
      (s.running = [] → s.stream = s.jobs.flatMap out) := by
  unfold Whole at h
  cases hcurrent : s.current with
  | none =>
    rw [hcurrent] at h
    have hrunning : s.running = [] := by simp [running, hcurrent]
    refine ⟨h ▸ List.prefix_rfl, ⟨s.jobs, ?_, h ▸ List.prefix_rfl⟩, fun _ => h⟩
    rw [hrunning, List.append_nil]
  | some p =>
    obtain ⟨k, rest⟩ := p
    rw [hcurrent] at h
    obtain ⟨before, written, hjobs, hout, hstream⟩ := h
    have hrunning : s.running = [k] := by simp [running, hcurrent]
    refine ⟨⟨rest, ?_⟩, ⟨before, ?_, ?_⟩, ?_⟩
    · rw [hstream, hjobs, List.append_assoc, hout, List.flatMap_append, List.flatMap_singleton]
    · rw [hrunning, hjobs]
    · rw [hstream]
      exact List.prefix_append _ _
    · rw [hrunning]
      intro h
      cases h

end Serial
