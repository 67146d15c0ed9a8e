/-
# Call stacks

An execution as a sequence of calls, returns and statements.  A call makes a new activation,
known by its number; the live ones form the stack, innermost first, and each remembers the last
statement it executed.  A statement always belongs to the innermost activation.

Somebody who only sees the statements and the depth they run at cannot tell apart two
activations of one depth.  What can be told is this: an activation was live at a moment in the
past exactly when its depth has not been undercut since.  `executed` lists the statements of an
execution with that low-water mark, and `mem_ids_iff` is the rule.

* §1  lists read from the outermost end;
* §2  activations and the three things an execution does;
* §3  what is left of a stack later on (`Since`);
* §4  the statements of an execution.
-/
import Mathlib.Data.List.Basic

universe u

namespace CallStack

/-! ## 1. From the outermost end -/

section

variable {α : Type u}

/-- The `j`-th entry of a stack, counted from the outermost one. -/
def outer (l : List α) (j : Nat) : Option α := l.reverse[j]?

theorem outer_eq_none {l : List α} {j : Nat} (h : l.length ≤ j) : outer l j = none := by
  simp [outer, h]

theorem lt_of_outer {l : List α} {j : Nat} {a : α} (h : outer l j = some a) : j < l.length := by
  by_contra hc
  rw [outer_eq_none (by omega)] at h
  exact absurd h (by simp)

/-- What is below the innermost entry does not depend on it. -/
theorem outer_cons_of_lt (a : α) {l : List α} {j : Nat} (h : j < l.length) :
    outer (a :: l) j = outer l j := by
  rw [outer, List.reverse_cons, List.getElem?_append_left (by simpa using h), outer]

theorem outer_cons_length (a : α) (l : List α) : outer (a :: l) l.length = some a := by
  simp [outer]

theorem outer_tail {l : List α} {j : Nat} (h : j + 1 < l.length) : outer l.tail j = outer l j := by
  cases l with
  | nil => rfl
  | cons a l =>
    rw [List.length_cons] at h
    rw [List.tail_cons, outer_cons_of_lt a (by omega)]

theorem outer_modifyHead (f : α → α) {l : List α} {j : Nat} (h : j + 1 < l.length) :
    outer (l.modifyHead f) j = outer l j := by
  cases l with
  | nil => rfl
  | cons a l =>
    rw [List.length_cons] at h
    rw [List.modifyHead_cons, outer_cons_of_lt _ (by omega), outer_cons_of_lt _ (by omega)]

end

/-! ## 2. Activations -/

/-- An activation: the number of its call, and the last statement it executed. -/
structure Frame (σ : Type u) where
  id : Nat
  last : Option σ

/-- The live activations, innermost first, and the number of the next call. -/
structure Stack (σ : Type u) where
  live : List (Frame σ)
  calls : Nat
  numbered : ∀ i ∈ live.map Frame.id, i < calls
  distinct : (live.map Frame.id).Nodup

namespace Stack

variable {σ : Type u}

/-- Nothing runs yet. -/
def empty : Stack σ where
  live := []
  calls := 0
  numbered := by simp
  distinct := List.Pairwise.nil

/-- The numbers of the live activations. -/
def ids (s : Stack σ) : List Nat := s.live.map Frame.id

/-- The innermost activation calls. -/
def call (s : Stack σ) : Stack σ where
  live := ⟨s.calls, none⟩ :: s.live
  calls := s.calls + 1
  numbered := by
    intro i hi
    rw [List.map_cons, List.mem_cons] at hi
    rcases hi with rfl | hi
    · exact Nat.lt_succ_self _
    · exact Nat.lt_succ_of_lt (s.numbered i hi)
  distinct := by
    rw [List.map_cons, List.nodup_cons]
    exact ⟨fun hi => Nat.lt_irrefl _ (s.numbered _ hi), s.distinct⟩

/-- The innermost activation returns. -/
def ret (s : Stack σ) : Stack σ where
  live := s.live.tail
  calls := s.calls
  numbered := by
    intro i hi
    rw [List.map_tail] at hi
    exact s.numbered i (List.mem_of_mem_tail hi)
  distinct := by
    rw [List.map_tail]
    exact s.distinct.sublist (List.tail_sublist _)

/-- The list of numbers does not see statements. -/
theorem map_id_modifyHead (l : List (Frame σ)) (x : σ) :
    (l.modifyHead fun a => { a with last := some x }).map Frame.id = l.map Frame.id := by
  cases l <;> rfl

/-- The innermost activation executes a statement. -/
def exec (s : Stack σ) (x : σ) : Stack σ where
  live := s.live.modifyHead fun a => { a with last := some x }
  calls := s.calls
  numbered := by
    rw [map_id_modifyHead]
    exact s.numbered
  distinct := by
    rw [map_id_modifyHead]
    exact s.distinct

@[simp] theorem live_call (s : Stack σ) : s.call.live = ⟨s.calls, none⟩ :: s.live := rfl
@[simp] theorem live_ret (s : Stack σ) : s.ret.live = s.live.tail := rfl
theorem live_exec (s : Stack σ) (x : σ) :
    (s.exec x).live = s.live.modifyHead fun a => { a with last := some x } := rfl

/-- Only the innermost activation remembers the statement. -/
theorem live_exec_of_cons {s : Stack σ} {a : Frame σ} {callers : List (Frame σ)}
    (h : s.live = a :: callers) (x : σ) :
    (s.exec x).live = { a with last := some x } :: callers := by
  rw [live_exec, h, List.modifyHead_cons]

@[simp] theorem length_ids (s : Stack σ) : s.ids.length = s.live.length := by simp [ids]
@[simp] theorem ids_call (s : Stack σ) : s.call.ids = s.calls :: s.ids := rfl
@[simp] theorem ids_ret (s : Stack σ) : s.ret.ids = s.ids.tail := List.map_tail
@[simp] theorem ids_exec (s : Stack σ) (x : σ) : (s.exec x).ids = s.ids := map_id_modifyHead _ x
@[simp] theorem length_live_exec (s : Stack σ) (x : σ) :
    (s.exec x).live.length = s.live.length := by
  rw [← length_ids, ids_exec, length_ids]

/-! ## 3. What is left of a stack -/

/-- Since the stack was `s₀` the depth has not been below `low`: the outermost `low` activations
are those of `s₀`, and every other one was called later. -/
structure Since (s₀ s : Stack σ) (low : Nat) : Prop where
  low_le : low ≤ s₀.live.length
  calls_le : s₀.calls ≤ s.calls
  split : ∃ later, (∀ i ∈ later, s₀.calls ≤ i) ∧
    s.ids = later ++ s₀.ids.drop (s₀.live.length - low)

theorem since_self (s : Stack σ) : Since s s s.live.length where
  low_le := Nat.le_refl _
  calls_le := Nat.le_refl _
  split := ⟨[], by simp, by simp⟩

theorem Since.call {s₀ s : Stack σ} {low : Nat} (h : Since s₀ s low) : Since s₀ s.call low where
  low_le := h.low_le
  calls_le := Nat.le_succ_of_le h.calls_le
  split := by
    obtain ⟨later, hlater, hids⟩ := h.split
    refine ⟨s.calls :: later, ?_, by rw [ids_call, hids, List.cons_append]⟩
    intro i hi
    rcases List.mem_cons.mp hi with rfl | hi
    · exact h.calls_le
    · exact hlater i hi

theorem Since.exec {s₀ s : Stack σ} {low : Nat} (h : Since s₀ s low) (x : σ) :
    Since s₀ (s.exec x) low where
  low_le := h.low_le
  calls_le := h.calls_le
  split := by
    rw [ids_exec]
    exact h.split

/-- A return takes the innermost activation away, and lowers the mark when that is an old one. -/
theorem Since.ret {s₀ s : Stack σ} {low : Nat} (h : Since s₀ s low) :
    Since s₀ s.ret (min low (s.live.length - 1)) where
  low_le := Nat.le_trans (Nat.min_le_left _ _) h.low_le
  calls_le := h.calls_le
  split := by
    obtain ⟨later, hlater, hids⟩ := h.split
    have hlen := congrArg List.length hids
    have hlow := h.low_le
    simp only [length_ids, List.length_append, List.length_drop] at hlen
    cases later with
    | nil =>
      refine ⟨[], by simp, ?_⟩
      rw [List.nil_append] at hids ⊢
      rw [List.length_nil] at hlen
      rw [ids_ret, hids, List.tail_drop]
      by_cases hzero : low = 0
      · rw [List.drop_eq_nil_of_le (by rw [length_ids]; omega),
          List.drop_eq_nil_of_le (by rw [length_ids]; omega)]
      · congr 1
        omega
    | cons i later =>
      rw [List.length_cons] at hlen
      refine ⟨later, fun j hj => hlater j (List.mem_cons_of_mem _ hj), ?_⟩
      rw [ids_ret, hids, List.cons_append, List.tail_cons, Nat.min_eq_left (by omega)]

/-- **Who was there.**  The innermost activation is one of the earlier stack iff its depth has
not been undercut since. -/
theorem Since.mem_ids_iff {s₀ s : Stack σ} {low : Nat} (h : Since s₀ s low) {a : Frame σ}
    {callers : List (Frame σ)} (hlive : s.live = a :: callers) :
    a.id ∈ s₀.ids ↔ s.live.length ≤ low := by
  obtain ⟨later, hlater, hids⟩ := h.split
  have hlen := congrArg List.length hids
  have hlow := h.low_le
  simp only [length_ids, List.length_append, List.length_drop] at hlen
  have hhead : s.ids = a.id :: callers.map Frame.id := by rw [ids, hlive, List.map_cons]
  cases later with
  | nil =>
    rw [List.length_nil] at hlen
    refine ⟨fun _ => by omega, fun _ => ?_⟩
    have hmem : a.id ∈ s₀.ids.drop (s₀.live.length - low) := by
      rw [← List.nil_append (s₀.ids.drop _), ← hids, hhead]
      exact List.mem_cons_self
    exact List.mem_of_mem_drop hmem
  | cons i later =>
    rw [List.length_cons] at hlen
    constructor
    · intro hmem
      rw [hhead, List.cons_append, List.cons.injEq] at hids
      have hnew := hlater i List.mem_cons_self
      have hold := s₀.numbered a.id hmem
      omega
    · intro hle
      omega

/-- At a smaller depth it is even one of the callers of the earlier innermost activation. -/
theorem Since.mem_tail_ids {s₀ s : Stack σ} {low : Nat} (h : Since s₀ s low) {a : Frame σ}
    {callers : List (Frame σ)} (hlive : s.live = a :: callers) (hlow : s.live.length ≤ low)
    (hlt : s.live.length < s₀.live.length) : a.id ∈ s₀.ids.tail := by
  obtain ⟨later, -, hids⟩ := h.split
  have hlen := congrArg List.length hids
  have := h.low_le
  simp only [length_ids, List.length_append, List.length_drop] at hlen
  obtain rfl : later = [] := List.length_eq_zero_iff.mp (by omega)
  have hmem : a.id ∈ s₀.ids.drop (s₀.live.length - low) := by
    rw [← List.nil_append (s₀.ids.drop _), ← hids, ids, hlive]
    exact List.mem_cons_self
  have hdrop : s₀.live.length - low = (s₀.live.length - low - 1) + 1 := by omega
  rw [hdrop, ← List.drop_tail] at hmem
  exact List.mem_of_mem_drop hmem

end Stack

/-! ## 4. Executions -/

/-- What an execution does next. -/
inductive Op (σ : Type u)
  | call
  | ret
  | exec (x : σ)

/-- A statement of an execution: the activation it belongs to, the number of live activations,
and the smallest such number since the start. -/
structure Executed (σ : Type u) where
  activation : Nat
  depth : Nat
  low : Nat
  statement : σ

namespace Stack

variable {σ : Type u}

/-- The statements of an execution from a stack; `none` when it returns from, or executes a
statement in, no activation at all. -/
def executed (s : Stack σ) (low : Nat) : List (Op σ) → Option (List (Executed σ))
  | [] => some []
  | .call :: ops => executed s.call low ops
  | .ret :: ops =>
    if s.live.length = 0 then none
    else executed s.ret (min low (s.live.length - 1)) ops
  | .exec x :: ops =>
    match s.live with
    | [] => none
    | a :: _ => (executed (s.exec x) low ops).map (⟨a.id, s.live.length, low, x⟩ :: ·)

/-- **The statements of a later execution.**  Each belongs to an activation of the start iff it
runs no deeper than the low-water mark, and at a smaller depth than the start then to a caller
of the activation the execution starts in. -/
theorem Since.executed {s₀ s : Stack σ} {low : Nat} (h : Since s₀ s low) {ops : List (Op σ)}
    {xs : List (Executed σ)} (hops : s.executed low ops = some xs) :
    ∀ x ∈ xs, (x.activation ∈ s₀.ids ↔ x.depth ≤ x.low) ∧
      (x.depth ≤ x.low → x.depth < s₀.live.length → x.activation ∈ s₀.ids.tail) := by
  induction ops generalizing s low xs with
  | nil =>
    obtain rfl := Option.some.inj hops
    simp
  | cons op ops ih =>
    cases op with
    | call => exact ih h.call hops
    | ret =>
      rw [Stack.executed] at hops
      split at hops
      · exact absurd hops (by simp)
      · exact ih h.ret hops
    | exec x =>
      rw [Stack.executed] at hops
      split at hops
      · exact absurd hops (by simp)
      · rename_i a callers hlive
        obtain ⟨ys, hys, rfl⟩ := Option.map_eq_some_iff.mp hops
        intro y hy
        rcases List.mem_cons.mp hy with rfl | hy
        · exact ⟨h.mem_ids_iff hlive, h.mem_tail_ids hlive⟩
        · exact ih (h.exec x) hys y hy

end Stack

end CallStack
