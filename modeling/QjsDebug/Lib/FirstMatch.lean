/-
# The first place where a pattern occurs

`firstMatch t s` is the least position at which `t` is a part of the list `s`, which is what
`std::string::find` returns.  An occurrence is a splitting of the list around the pattern
(`OccursAt`), so the two specifications say where a search stops and when it does not
(`firstMatch_eq_some_iff`, `firstMatch_eq_none_iff`).
-/
import Mathlib.Data.List.Infix

namespace FirstMatch

universe u

variable {α : Type u} [DecidableEq α]

/-- The least position of `t` in a list. -/
def firstMatch (t : List α) : List α → Option Nat
  | [] => if t = [] then some 0 else none
  | c :: s => if t <+: c :: s then some 0 else (firstMatch t s).map (· + 1)

omit [DecidableEq α] in
/-- `t` stands in `s` behind `i` items. -/
def OccursAt (t s : List α) (i : Nat) : Prop := ∃ a b, s = a ++ (t ++ b) ∧ a.length = i

omit [DecidableEq α] in
theorem OccursAt.isInfix {t s : List α} {i : Nat} (h : OccursAt t s i) : t <:+: s := by
  obtain ⟨a, b, rfl, -⟩ := h
  exact ⟨a, b, List.append_assoc _ _ _⟩

omit [DecidableEq α] in
theorem exists_occursAt {t s : List α} : t <:+: s ↔ ∃ i, OccursAt t s i := by
  constructor
  · rintro ⟨a, b, rfl⟩
    exact ⟨a.length, a, b, List.append_assoc _ _ _, rfl⟩
  · rintro ⟨i, h⟩
    exact h.isInfix

omit [DecidableEq α] in
theorem occursAt_zero {t s : List α} : OccursAt t s 0 ↔ t <+: s := by
  constructor
  · rintro ⟨a, b, rfl, ha⟩
    obtain rfl := List.length_eq_zero_iff.mp ha
    exact ⟨b, rfl⟩
  · rintro ⟨b, rfl⟩
    exact ⟨[], b, rfl, rfl⟩

omit [DecidableEq α] in
theorem occursAt_succ {t s : List α} {c : α} {i : Nat} :
    OccursAt t (c :: s) (i + 1) ↔ OccursAt t s i := by
  constructor
  · rintro ⟨a, b, heq, ha⟩
    cases a with
    | nil => exact absurd ha (by simp)
    | cons d a =>
      obtain ⟨-, rfl⟩ := List.cons.inj heq
      exact ⟨a, b, rfl, by simpa using ha⟩
  · rintro ⟨a, b, rfl, rfl⟩
    exact ⟨c :: a, b, rfl, rfl⟩

/-- **Where the search stops**: at an occurrence, and at no later one. -/
theorem firstMatch_eq_some_iff {t s : List α} {i : Nat} :
    firstMatch t s = some i ↔ OccursAt t s i ∧ ∀ j, OccursAt t s j → i ≤ j := by
  induction s generalizing i with
  | nil =>
    have hnil : ∀ j, OccursAt t [] j ↔ t = [] ∧ j = 0 := by
      intro j
      constructor
      · rintro ⟨a, b, heq, rfl⟩
        obtain ⟨rfl, hrest⟩ := List.append_eq_nil_iff.mp heq.symm
        exact ⟨(List.append_eq_nil_iff.mp hrest).1, rfl⟩
      · rintro ⟨rfl, rfl⟩
        exact ⟨[], [], rfl, rfl⟩
    simp only [firstMatch, hnil]
    by_cases ht : t = []
    · simp only [ht, if_true, Option.some.injEq, true_and]
      constructor
      · rintro rfl
        exact ⟨rfl, fun j hj => Nat.zero_le j⟩
      · rintro ⟨rfl, -⟩
        rfl
    · simp [ht]
  | cons c s ih =>
    rw [firstMatch]
    by_cases hpre : t <+: c :: s
    · rw [if_pos hpre, Option.some.injEq]
      constructor
      · rintro rfl
        exact ⟨occursAt_zero.mpr hpre, fun j _ => Nat.zero_le j⟩
      · rintro ⟨-, hleast⟩
        exact (Nat.le_zero.mp (hleast 0 (occursAt_zero.mpr hpre))).symm
    · rw [if_neg hpre, Option.map_eq_some_iff]
      constructor
      · rintro ⟨k, hk, rfl⟩
        obtain ⟨hoccurs, hleast⟩ := ih.mp hk
        refine ⟨occursAt_succ.mpr hoccurs, fun j hj => ?_⟩
        cases j with
        | zero => exact absurd (occursAt_zero.mp hj) hpre
        | succ j => exact Nat.succ_le_succ (hleast j (occursAt_succ.mp hj))
      · rintro ⟨hoccurs, hleast⟩
        cases i with
        | zero => exact absurd (occursAt_zero.mp hoccurs) hpre
        | succ i =>
          refine ⟨i, ih.mpr ⟨occursAt_succ.mp hoccurs, fun j hj => ?_⟩, rfl⟩
          exact Nat.le_of_succ_le_succ (hleast (j + 1) (occursAt_succ.mpr hj))

/-- **When it does not stop**: the pattern does not occur. -/
theorem firstMatch_eq_none_iff {t s : List α} : firstMatch t s = none ↔ ¬ t <:+: s := by
  constructor
  · intro hnone hinfix
    obtain ⟨i, hi⟩ := exists_occursAt.mp hinfix
    -- below any occurrence there is a first one
    induction i using Nat.strong_induction_on with
    | _ i ih =>
      by_cases hleast : ∀ j, OccursAt t s j → i ≤ j
      · rw [firstMatch_eq_some_iff.mpr ⟨hi, hleast⟩] at hnone
        exact absurd hnone (by simp)
      · simp only [not_forall, Nat.not_le] at hleast
        obtain ⟨j, hj, hlt⟩ := hleast
        exact ih j hlt hj
  · intro hnot
    cases h : firstMatch t s with
    | none => rfl
    | some i => exact absurd (firstMatch_eq_some_iff.mp h).1.isInfix hnot

/-! ## Searching across a separator -/

omit [DecidableEq α] in
/-- A pattern without the separator stands before a text cut by it iff it stands before the first
part. -/
theorem prefix_append_cons {t l rest : List α} {x : α} (hx : x ∉ t) :
    t <+: l ++ x :: rest ↔ t <+: l := by
  constructor
  · intro h
    by_cases hlen : t.length ≤ l.length
    · exact List.prefix_of_prefix_length_le h (List.prefix_append l _) hlen
    · have hlong : l ++ [x] <+: t := by
        refine List.prefix_of_prefix_length_le ⟨rest, ?_⟩ h ?_
        · rw [List.append_assoc, List.singleton_append]
        · rw [List.length_append, List.length_singleton]
          omega
      exact absurd (hlong.subset (List.mem_append_right l (List.mem_singleton_self x))) hx
  · exact fun h => h.trans (List.prefix_append l _)

/-- **A search in a text cut by a separator** is a search in its first part, and then in the
rest. -/
theorem firstMatch_append_cons {t l rest : List α} {x : α} (ht : t ≠ []) (hx : x ∉ t) :
    firstMatch t (l ++ x :: rest) =
      (firstMatch t l).or ((firstMatch t rest).map (· + (l.length + 1))) := by
  induction l with
  | nil =>
    have hnot : ¬ t <+: x :: rest := fun h =>
      ht (List.prefix_nil.mp ((prefix_append_cons (l := []) hx).mp h))
    simp only [List.nil_append, firstMatch, hnot, ht, if_false]
    rfl
  | cons c l ih =>
    rw [List.cons_append, firstMatch, firstMatch, ih, ← List.cons_append]
    by_cases hpre : t <+: c :: l
    · rw [if_pos ((prefix_append_cons hx).mpr hpre), if_pos hpre]
      rfl
    · rw [if_neg (fun h => hpre ((prefix_append_cons hx).mp h)), if_neg hpre]
      cases firstMatch t l with
      | some i => rfl
      | none =>
        simp only [Option.none_or, Option.map_none, Option.map_map, List.length_cons]
        rfl

/-- The first place of a pattern is behind whatever has no item to begin it with. -/
theorem firstMatch_of_notMem {x : α} {t l rest : List α} (hx : x ∉ l) :
    firstMatch (x :: t) (l ++ (x :: t ++ rest)) = some l.length := by
  induction l with
  | nil => exact if_pos (List.prefix_append _ rest)
  | cons c l ih =>
    have hnot : ¬ x :: t <+: c :: (l ++ (x :: t ++ rest)) := by
      intro h
      obtain ⟨heq, -⟩ := List.cons_prefix_cons.mp h
      exact hx (heq ▸ List.mem_cons_self)
    rw [List.cons_append, firstMatch, if_neg hnot, ih fun h => hx (List.mem_cons_of_mem c h)]
    rfl

end FirstMatch
