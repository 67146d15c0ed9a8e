/-
# Handles that are acquired, used and released

A program that owns operating-system handles leaves a log: which handle it acquired, what it did
with it, which one it released.  `held` replays such a log from the handles held at its start and
fails at the first event that no owner may do: acquiring what is held already, using or releasing
what is not.  So a log that it accepts has no double release and no use after a release, and the
list it ends with is what the program still has to release.

`held_count` is the balance of one handle over an accepted log.

A program that acquires its handles one by one is followed with `Owned log S`: the log is an
owner's and the handles of `S` are what is held behind it.  It has a rule for each event, and
`Owned.frame` for a whole log that somebody else has accounted for.
-/
import Mathlib.Data.Finset.Erase
import Mathlib.Data.Finset.Lattice.Lemmas
import Mathlib.Data.List.Count

namespace Handles

universe u v

variable {H : Type u} {P : Type v}

/-- What a program does with a handle. -/
inductive HandleEvent (H : Type u) (P : Type v)
  | acquire (h : H)
  | use (h : H) (what : P)
  | release (h : H)
  deriving DecidableEq

variable [DecidableEq H]

/-- The handles held after a log, `none` when the log is no owner's. -/
def held (before : List H) : List (HandleEvent H P) → Option (List H)
  | [] => some before
  | .acquire h :: log => if h ∈ before then none else held (h :: before) log
  | .use h _ :: log => if h ∈ before then held before log else none
  | .release h :: log => if h ∈ before then held (before.erase h) log else none

section Balance

variable [DecidableEq P]

theorem count_acquire_cons (x y : H) (log : List (HandleEvent H P)) :
    (HandleEvent.acquire y :: log).count (.acquire x) =
      log.count (.acquire x) + if y = x then 1 else 0 := by
  simp only [List.count_cons, beq_iff_eq, HandleEvent.acquire.injEq]

theorem count_release_cons (x y : H) (log : List (HandleEvent H P)) :
    (HandleEvent.release y :: log).count (.release x) =
      log.count (.release x) + if y = x then 1 else 0 := by
  simp only [List.count_cons, beq_iff_eq, HandleEvent.release.injEq]

/-- **The balance of a handle**: as often as it is acquired it is released, or held still. -/
theorem held_count {before after : List H} {log : List (HandleEvent H P)}
    (h : held before log = some after) (x : H) :
    log.count (.acquire x) + before.count x = log.count (.release x) + after.count x := by
  induction log generalizing before with
  | nil =>
    obtain rfl := Option.some.inj h
    rfl
  | cons e log ih =>
    cases e with
    | acquire y =>
      obtain ⟨-, h⟩ := Option.ite_none_left_eq_some.mp h
      have hrest := ih h
      simp only [List.count_cons, beq_iff_eq] at hrest
      rw [count_acquire_cons, List.count_cons_of_ne (by simp)]
      omega
    | use y p =>
      obtain ⟨-, h⟩ := Option.ite_none_right_eq_some.mp h
      rw [List.count_cons_of_ne (by simp), List.count_cons_of_ne (by simp)]
      exact ih h
    | release y =>
      obtain ⟨hmem, h⟩ := Option.ite_none_right_eq_some.mp h
      have hrest := ih h
      have hpos : 0 < before.count y := List.count_pos_iff.mpr hmem
      rw [List.count_erase, beq_eq_decide] at hrest
      rw [List.count_cons_of_ne (by simp), count_release_cons]
      by_cases hxy : y = x
      · subst hxy
        simp only [decide_true, if_true] at hrest ⊢
        omega
      · simp only [hxy, decide_false, Bool.false_eq_true, if_false] at hrest ⊢
        omega

end Balance

/-! ## Logs behind each other -/

theorem held_append (before : List H) (log log' : List (HandleEvent H P)) :
    held before (log ++ log') = (held before log).bind fun after => held after log' := by
  induction log generalizing before with
  | nil => rfl
  | cons e log ih =>
    cases e with
    | acquire h | use h what | release h =>
      simp only [List.cons_append, held]
      split
      all_goals first | rfl | exact ih _

/-- Whatever else is held does not matter, unless it is acquired once more. -/
theorem held_frame {before after rest : List H} {log : List (HandleEvent H P)}
    (h : held before log = some after) (hrest : ∀ x ∈ rest, .acquire x ∉ log) :
    held (before ++ rest) log = some (after ++ rest) := by
  induction log generalizing before with
  | nil =>
    obtain rfl := Option.some.inj h
    rfl
  | cons e log ih =>
    have hbehind : ∀ x ∈ rest, .acquire x ∉ log := fun x hx hmem =>
      hrest x hx (List.mem_cons_of_mem e hmem)
    cases e with
    | acquire y =>
      obtain ⟨hnot, h⟩ := Option.ite_none_left_eq_some.mp h
      have hy : y ∉ before ++ rest := by
        rw [List.mem_append, not_or]
        exact ⟨hnot, fun hy => hrest y hy List.mem_cons_self⟩
      rw [held, if_neg hy]
      exact ih h hbehind
    | use y what =>
      obtain ⟨hmem, h⟩ := Option.ite_none_right_eq_some.mp h
      rw [held, if_pos (List.mem_append_left rest hmem)]
      exact ih h hbehind
    | release y =>
      obtain ⟨hmem, h⟩ := Option.ite_none_right_eq_some.mp h
      rw [held, if_pos (List.mem_append_left rest hmem), List.erase_append_left rest hmem]
      exact ih h hbehind

/-- The event under another name of the handle, and with another note of what was done. -/
def HandleEvent.map {H' P' : Type*} (f : H → H') (g : P → P') : HandleEvent H P → HandleEvent H' P'
  | .acquire h => .acquire (f h)
  | .use h what => .use (f h) (g what)
  | .release h => .release (f h)

theorem held_map {H' P' : Type*} [DecidableEq H'] {f : H → H'} (hf : f.Injective) (g : P → P')
    (before : List H) (log : List (HandleEvent H P)) :
    held (before.map f) (log.map (HandleEvent.map f g)) = (held before log).map (List.map f) := by
  induction log generalizing before with
  | nil => rfl
  | cons e log ih =>
    cases e with
    | acquire y =>
      simp only [List.map_cons, HandleEvent.map, held, List.mem_map_of_injective hf]
      split
      · rfl
      · exact ih (y :: before)
    | use y what =>
      simp only [List.map_cons, HandleEvent.map, held, List.mem_map_of_injective hf]
      split
      · exact ih before
      · rfl
    | release y =>
      simp only [List.map_cons, HandleEvent.map, held, List.mem_map_of_injective hf]
      split
      · rw [← List.map_erase hf]
        exact ih (before.erase y)
      · rfl

theorem nodup_of_held {before after : List H} {log : List (HandleEvent H P)}
    (h : held before log = some after) (hbefore : before.Nodup) : after.Nodup := by
  induction log generalizing before with
  | nil => exact Option.some.inj h ▸ hbefore
  | cons e log ih =>
    cases e with
    | acquire y =>
      obtain ⟨hnot, h⟩ := Option.ite_none_left_eq_some.mp h
      exact ih h (List.nodup_cons.mpr ⟨hnot, hbefore⟩)
    | use y what => exact ih (Option.ite_none_right_eq_some.mp h).2 hbefore
    | release y => exact ih (Option.ite_none_right_eq_some.mp h).2 (hbefore.erase y)

/-! ## What a log leaves -/

/-- The log is an owner's, and behind it just the handles of `S` are held. -/
def Owned (log : List (HandleEvent H P)) (S : Finset H) : Prop :=
  ∃ after, held [] log = some after ∧ after.toFinset = S

section

variable {log log' : List (HandleEvent H P)} {S : Finset H} {x : H}

theorem Owned.nil : Owned ([] : List (HandleEvent H P)) ∅ := ⟨[], rfl, rfl⟩

/-- Nothing is left. -/
theorem Owned.held (h : Owned log ∅) : held [] log = some [] := by
  obtain ⟨after, hheld, hset⟩ := h
  rw [hheld, (List.toFinset_eq_empty_iff after).mp hset]

/-- One more event. -/
theorem Owned.event {e : HandleEvent H P} {S' : Finset H} (h : Owned log S)
    (he : ∀ held' : List H, held'.Nodup → held'.toFinset = S →
      ∃ after, Handles.held held' [e] = some after ∧ after.toFinset = S') :
    Owned (log ++ [e]) S' := by
  obtain ⟨after, hheld, hset⟩ := h
  obtain ⟨after', hheld', hset'⟩ := he after (nodup_of_held hheld List.nodup_nil) hset
  refine ⟨after', ?_, hset'⟩
  rw [held_append, hheld, Option.bind_some, hheld']

theorem Owned.acquire (h : Owned log S) (hx : x ∉ S) :
    Owned (log ++ [.acquire x]) (insert x S) := by
  refine h.event fun held' _ hset => ⟨x :: held', ?_, ?_⟩
  · rw [Handles.held, if_neg (by rwa [← List.mem_toFinset, hset]), Handles.held]
  · rw [List.toFinset_cons, hset]

theorem Owned.use (h : Owned log S) (hx : x ∈ S) (what : P) : Owned (log ++ [.use x what]) S := by
  refine h.event fun held' _ hset => ⟨held', ?_, hset⟩
  rw [Handles.held, if_pos (by rwa [← List.mem_toFinset, hset]), Handles.held]

theorem Owned.release (h : Owned log S) (hx : x ∈ S) :
    Owned (log ++ [.release x]) (S.erase x) := by
  refine h.event fun held' hnodup hset => ⟨held'.erase x, ?_, ?_⟩
  · rw [Handles.held, if_pos (by rwa [← List.mem_toFinset, hset]), Handles.held]
  · ext y
    rw [List.mem_toFinset, hnodup.mem_erase_iff, Finset.mem_erase, ← List.mem_toFinset, hset]

/-- **The frame rule**: a log that is an owner's by itself may go behind any other that leaves none
of the handles it acquires. -/
theorem Owned.frame {S' : Finset H} (h : Owned log S) (h' : Owned log' S')
    (hfresh : ∀ x ∈ S, .acquire x ∉ log') : Owned (log ++ log') (S' ∪ S) := by
  obtain ⟨after, hheld, hset⟩ := h
  obtain ⟨after', hheld', hset'⟩ := h'
  have hrest : ∀ x ∈ after, .acquire x ∉ log' := fun x hx =>
    hfresh x (hset ▸ List.mem_toFinset.mpr hx)
  refine ⟨after' ++ after, ?_, ?_⟩
  · rw [held_append, hheld, Option.bind_some]
    exact held_frame hheld' hrest
  · rw [List.toFinset_append, hset, hset']

/-- A log that gives everything back. -/
theorem Owned.aside (h : Owned log S) (hlog : Handles.held [] log' = some [])
    (hfresh : ∀ x ∈ S, .acquire x ∉ log') : Owned (log ++ log') S := by
  have hframe : Owned (log ++ log') (∅ ∪ S) := h.frame ⟨[], hlog, rfl⟩ hfresh
  rwa [Finset.empty_union] at hframe

end

end Handles
