/-
# Programs that own references

A program obtains references, looks at them and gives them back; nothing in its result says whether
it did so in order.  Here it keeps a log of these three events, and the log is judged from outside:
`settle held log` follows it from what is held at the beginning, stops at a reference that is used
or given back without being held, and otherwise tells what is held at the end.

`Owns K pre m m' post` says that `m`, which keeps a log, does what `m'` does, which keeps none, and
that its log settles: whoever holds `pre` holds `post` of the result afterwards, and besides it the
references of the kind `K` that were obtained on the way and never given back (`lost`).  Whatever
else is held does not matter, so the frame rule is part of the meaning.  With nothing in `K` a
program that starts from `pre` and ends with `pre` leaks nothing.

The rules follow the steps of a `do` block, so that a copy of a program in which every event is
written down is compared with the original line by line.
-/
import Mathlib.Algebra.Order.Group.Multiset
import Mathlib.Control.Monad.Writer

universe u

/-- What happens to a reference. -/
inductive RefEvent (R : Type u)
  | take (r : R)
  | use (r : R)
  | give (r : R)

namespace Ownership

section

variable {R : Type u}

/-! ## 1. Logs -/

/-- One event, for who holds these references. -/
def settleOne [DecidableEq R] (held : Multiset R) : RefEvent R → Option (Multiset R)
  | .take r => some (r ::ₘ held)
  | .use r => if r ∈ held then some held else none
  | .give r => if r ∈ held then some (held.erase r) else none

/-- What is held after a log; `none` when a reference is used or given back that is not held. -/
def settle [DecidableEq R] (held : Multiset R) (log : List (RefEvent R)) : Option (Multiset R) :=
  log.foldlM settleOne held

theorem settle_append [DecidableEq R] (held : Multiset R) (log log' : List (RefEvent R)) :
    settle held (log ++ log') = (settle held log).bind fun held' => settle held' log' :=
  List.foldlM_append

/-- The reference that an event obtains. -/
def RefEvent.taken : RefEvent R → Option R
  | .take r => some r
  | .use _ | .give _ => none

/-- The references of a kind that were obtained. -/
def lost (K : R → Bool) (log : List (RefEvent R)) : Multiset R :=
  ((log.filterMap RefEvent.taken).filter K : List R)

theorem lost_append (K : R → Bool) (log log' : List (RefEvent R)) :
    lost K (log ++ log') = lost K log + lost K log' := by
  unfold lost
  rw [List.filterMap_append, List.filter_append, Multiset.coe_add]

theorem mem_of_mem_lost {K : R → Bool} {log : List (RefEvent R)} {r : R} (h : r ∈ lost K log) :
    K r = true :=
  (List.mem_filter.mp (Multiset.mem_coe.mp h)).2

/-- Nothing is lost where nothing of the kind was obtained. -/
theorem lost_eq_zero {K : R → Bool} {log : List (RefEvent R)}
    (h : ∀ r, .take r ∈ log → K r = false) : lost K log = 0 := by
  refine Multiset.eq_zero_of_forall_notMem fun r hr => ?_
  obtain ⟨e, he, hr'⟩ := List.mem_filterMap.mp (List.mem_filter.mp (Multiset.mem_coe.mp hr)).1
  cases e with
  | take r' =>
    obtain rfl : r' = r := Option.some.inj hr'
    exact absurd (mem_of_mem_lost hr) (by rw [h r' he]; exact Bool.false_ne_true)
  | use r' => cases hr'
  | give r' => cases hr'

end

/-! ## 2. Programs -/

/-- A program over states `σ` that keeps a log of what it does with its references. -/
abbrev Counting (R σ : Type u) := StateT σ (Writer (List (RefEvent R)))

section

variable {R σ τ β γ ι : Type u}

/-- The result and the state at the end. -/
def outcome (m : Counting R σ β) (s : σ) : β × σ := (m.run s).run.1

def log (m : Counting R σ β) (s : σ) : List (RefEvent R) := (m.run s).run.2

/-- Write an event down. -/
def note (e : RefEvent R) : Counting R σ PUnit := StateT.lift (tell [e])

def take (r : R) : Counting R σ PUnit := note (.take r)
def use (r : R) : Counting R σ PUnit := note (.use r)
def give (r : R) : Counting R σ PUnit := note (.give r)

/-- A step that does nothing with references. -/
def plain (x : StateM σ β) : Counting R σ β := fun s => pure (x.run s)

/-- Run a program on a part of the state. -/
def within (start : τ → σ) (m : τ → Counting R σ β) (finish : τ → β × σ → γ × τ) :
    Counting R τ γ := fun t => do
  let r ← (m t).run (start t)
  return finish t r

theorem outcome_bind (m : Counting R σ β) (f : β → Counting R σ γ) (s : σ) :
    outcome (m >>= f) s = outcome (f (outcome m s).1) (outcome m s).2 := rfl

theorem log_bind (m : Counting R σ β) (f : β → Counting R σ γ) (s : σ) :
    log (m >>= f) s = log m s ++ log (f (outcome m s).1) (outcome m s).2 := rfl

theorem log_note_bind (e : RefEvent R) (m : Counting R σ β) (s : σ) :
    log (note e >>= fun _ => m) s = e :: log m s := rfl

/-! ## 3. Comparison with a program that keeps no log -/

variable [DecidableEq R]

/-- **`m` does what `m'` does**, and turns the ownership of `pre` into that of `post`, but for the
references of the kind `K` that it obtained. -/
structure Owns (K : R → Bool) (pre : Multiset R) (m : Counting R σ β) (m' : StateM σ β)
    (post : β → Multiset R) : Prop where
  outcome : ∀ s, outcome m s = m'.run s
  settles : ∀ s more, settle (pre + more) (log m s) =
    some (post (m'.run s).1 + lost K (log m s) + more)

variable {K : R → Bool} {pre : Multiset R} {m : Counting R σ β} {m' : StateM σ β}
  {post : β → Multiset R} {r : R}

theorem Owns.pure {b : β} (h : pre = post b) :
    Owns K pre (Pure.pure b : Counting R σ β) (Pure.pure b) post where
  outcome := fun _ => rfl
  settles := by
    intro s more
    rw [h]
    exact congrArg (fun held => some (held + more)) (add_zero (post b)).symm

/-- **Sequencing.** -/
theorem Owns.bind {f : β → Counting R σ γ} {f' : β → StateM σ γ} {last : γ → Multiset R}
    (hm : Owns K pre m m' post) (hf : ∀ b, Owns K (post b) (f b) (f' b) last) :
    Owns K pre (m >>= f) (m' >>= f') last where
  outcome := by
    intro s
    rw [outcome_bind, hm.outcome]
    exact (hf _).outcome _
  settles := by
    intro s more
    rw [log_bind, settle_append, hm.settles, Option.bind_some, add_assoc, hm.outcome,
      (hf _).settles, lost_append]
    exact congrArg some (by rw [StateT.run_bind]; ac_rfl)

/-- A step that does nothing with references. -/
theorem Owns.plain {x : StateM σ β} {f : β → Counting R σ γ} {f' : β → StateM σ γ}
    {last : γ → Multiset R} (hf : ∀ b, Owns K pre (f b) (f' b) last) :
    Owns K pre (plain x >>= f) (x >>= f') last where
  outcome := fun _ => (hf _).outcome _
  settles := fun s more => (hf (x.run s).1).settles (x.run s).2 more

/-- Such a step at the end. -/
theorem Owns.last {x : StateM σ β} : Owns K pre (Ownership.plain x) x fun _ => pre where
  outcome := fun _ => rfl
  settles := fun _ more => congrArg (fun held => some (held + more)) (add_zero pre).symm

/-- A reference is obtained. -/
theorem Owns.take (hr : K r = false) (hm : Owns K (r ::ₘ pre) m m' post) :
    Owns K pre (take r >>= fun _ => m) m' post where
  outcome := hm.outcome
  settles := by
    intro s more
    have hlost : lost K (.take r :: log m s) = lost K (log m s) := by
      simp [lost, RefEvent.taken, hr]
    have hsettle := hm.settles s more
    rw [Multiset.cons_add] at hsettle
    rw [Ownership.take, log_note_bind, hlost]
    exact hsettle

/-- A reference of the kind that is not given back. -/
theorem Owns.lose (hr : K r = true) (hm : Owns K pre m m' post) :
    Owns K pre (Ownership.take r >>= fun _ => m) m' post where
  outcome := hm.outcome
  settles := by
    intro s more
    have hlost : lost K (.take r :: log m s) = r ::ₘ lost K (log m s) := by
      simp [lost, RefEvent.taken, hr]
    have hsettle := hm.settles s (r ::ₘ more)
    rw [Multiset.add_cons] at hsettle
    rw [Ownership.take, log_note_bind, hlost, Multiset.add_cons, Multiset.cons_add,
      ← Multiset.add_cons]
    exact hsettle

/-- A reference is looked at while it is held. -/
theorem Owns.use (hr : r ∈ pre) (hm : Owns K pre m m' post) :
    Owns K pre (use r >>= fun _ => m) m' post where
  outcome := hm.outcome
  settles := by
    intro s more
    have hstep : settleOne (pre + more) (.use r) = some (pre + more) :=
      if_pos (Multiset.mem_add.mpr (.inl hr))
    rw [Ownership.use, log_note_bind, settle, List.foldlM_cons, hstep]
    exact hm.settles s more

/-- A reference is given back by who holds it. -/
theorem Owns.give (hm : Owns K pre m m' post) :
    Owns K (r ::ₘ pre) (give r >>= fun _ => m) m' post where
  outcome := hm.outcome
  settles := by
    intro s more
    have hstep : settleOne (r ::ₘ pre + more) (.give r) = some (pre + more) := by
      rw [Multiset.cons_add]
      exact (if_pos (Multiset.mem_cons_self _ _)).trans (by rw [Multiset.erase_cons_head])
    rw [Ownership.give, log_note_bind, settle, List.foldlM_cons, hstep]
    exact hm.settles s more

/-- A program that runs on a part of the state. -/
theorem Owns.within {start : τ → σ} {n : τ → Counting R σ β} {n' : τ → StateM σ β}
    {finish : τ → β × σ → γ × τ} {last : Multiset R}
    (hn : ∀ t, Owns K pre (n t) (n' t) fun _ => last) :
    Owns K pre (within start n finish) (fun t => finish t ((n' t).run (start t)))
      fun _ => last where
  outcome := fun t => congrArg (finish t) ((hn t).outcome (start t))
  settles := by
    intro t more
    have hlog : log (Ownership.within start n finish) t = log (n t) (start t) := List.append_nil _
    rw [hlog]
    exact (hn t).settles (start t) more

/-- **Loops.**  A round that ends with what it began with can be repeated. -/
theorem Owns.mapM {f : ι → Counting R σ β} {f' : ι → StateM σ β} (l : List ι)
    (hf : ∀ i ∈ l, Owns K pre (f i) (f' i) fun _ => pre) :
    Owns K pre (l.mapM' f) (l.mapM f') fun _ => pre := by
  rw [← List.mapM'_eq_mapM]
  induction l with
  | nil => exact Owns.pure rfl
  | cons i l ih =>
    refine (hf i List.mem_cons_self).bind fun b => ?_
    refine (ih fun j hj => hf j (List.mem_cons_of_mem _ hj)).bind fun bs => ?_
    exact Owns.pure rfl

theorem Owns.forM {f : ι → Counting R σ PUnit} {f' : ι → StateM σ PUnit} (l : List ι)
    (hf : ∀ i ∈ l, Owns K pre (f i) (f' i) fun _ => pre) :
    Owns K pre (l.forM f) (l.forM f') fun _ => pre := by
  induction l with
  | nil => exact Owns.pure rfl
  | cons i l ih =>
    exact (hf i List.mem_cons_self).bind fun _ => ih fun j hj => hf j (List.mem_cons_of_mem _ hj)

/-- A list of references is obtained. -/
theorem Owns.takes {l : List R} (hl : ∀ r ∈ l, K r = false) (hm : Owns K (↑l + pre) m m' post) :
    Owns K pre (l.forM Ownership.take >>= fun _ => m) m' post := by
  have hloop : ∀ (l : List R) (pre : Multiset R), (∀ r ∈ l, K r = false) →
      Owns K pre (l.forM Ownership.take : Counting R σ PUnit) (Pure.pure ⟨⟩)
        fun _ => ↑l + pre := by
    intro l
    induction l with
    | nil => exact fun pre _ => Owns.pure (zero_add pre).symm
    | cons r l ih =>
      intro pre hl
      refine Owns.take (hl r List.mem_cons_self) ?_
      have hrest := ih (r ::ₘ pre) fun r' hr' => hl r' (List.mem_cons_of_mem _ hr')
      rw [Multiset.add_cons, ← Multiset.cons_add, Multiset.cons_coe] at hrest
      exact hrest
  exact (hloop l pre hl).bind fun _ => hm

/-- A list of references is given back, in order. -/
theorem Owns.gives {l : List R} (hm : Owns K pre m m' post) :
    Owns K (↑l + pre) (l.forM Ownership.give >>= fun _ => m) m' post := by
  have hloop : ∀ l : List R,
      Owns K (↑l + pre) (l.forM Ownership.give : Counting R σ PUnit) (Pure.pure ⟨⟩)
        fun _ => pre := by
    intro l
    induction l with
    | nil => exact Owns.pure (zero_add pre)
    | cons r l ih =>
      rw [← Multiset.cons_coe, Multiset.cons_add]
      exact Owns.give ih
  exact (hloop l).bind fun _ => hm

end

end Ownership
