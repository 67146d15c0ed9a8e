/-
# Lines up to an empty one

A text protocol heads its messages with lines, each ended by the same two items, and an empty line
ends the head.  `readLines` reads such a head from the front of a list, item by item, and gives what
stands behind it.  Lines that are not empty and do not have the end of a line in them are read back
from their text, whatever follows (`readLines_text`); so no line can pass for two, and what follows
cannot reach into the head.
-/
import Mathlib.Data.List.Infix

namespace Lines

universe u

variable {α : Type u} (x y : α)

/-- The lines, each with its end, and an empty one. -/
def text (lines : List (List α)) : List α := lines.flatMap (· ++ [x, y]) ++ [x, y]

/-- A line of a head: it is not empty, and has no end of a line in it. -/
def IsLine (line : List α) : Prop := line ≠ [] ∧ ¬ [x, y] <:+: line

section

variable [DecidableEq α]

/-- The lines up to the empty one and what is behind it; `line` is what has been read of the
first line. -/
def readLines (line : List α) : List α → Option (List (List α) × List α)
  | [] => none
  | [_] => none
  | c :: d :: rest =>
    if c = x ∧ d = y then
      if line = [] then some ([], rest)
      else (readLines [] rest).map fun r => (line :: r.1, r.2)
    else readLines (line ++ [c]) (d :: rest)

variable {x y}

/-- One line is read up to its end. -/
theorem readLines_append (hne : x ≠ y) {l : List α} (h : ¬ [x, y] <:+: l) (line rest : List α) :
    readLines x y line (l ++ x :: y :: rest) =
      if line ++ l = [] then some ([], rest)
      else (readLines x y [] rest).map fun r => ((line ++ l) :: r.1, r.2) := by
  induction l generalizing line with
  | nil => rw [List.nil_append, readLines, if_pos ⟨rfl, rfl⟩, List.append_nil]
  | cons c l ih =>
    have hl : ¬ [x, y] <:+: l := fun hin => h (hin.trans (List.suffix_cons c l).isInfix)
    -- the end does not begin here
    obtain ⟨d, tail, htail, hnot⟩ :
        ∃ d tail, l ++ x :: y :: rest = d :: tail ∧ ¬ (c = x ∧ d = y) := by
      cases l with
      | nil => exact ⟨x, y :: rest, rfl, fun hxy => hne hxy.2⟩
      | cons d l =>
        refine ⟨d, l ++ x :: y :: rest, rfl, ?_⟩
        rintro ⟨rfl, rfl⟩
        exact h ⟨[], l, rfl⟩
    have hih := ih hl (line ++ [c])
    rw [htail] at hih
    rw [List.cons_append, htail, readLines, if_neg hnot, hih]
    simp only [List.append_assoc, List.singleton_append]

/-- **A head is read back**, and what follows it is left as it is. -/
theorem readLines_text (hne : x ≠ y) {lines : List (List α)} (h : ∀ l ∈ lines, IsLine x y l)
    (rest : List α) : readLines x y [] (text x y lines ++ rest) = some (lines, rest) := by
  induction lines with
  | nil => simpa [text] using readLines_append hne (l := []) (by simp) [] rest
  | cons l lines ih =>
    obtain ⟨⟨hnil, hin⟩, hlines⟩ := List.forall_mem_cons.mp h
    have htext : text x y (l :: lines) ++ rest = l ++ x :: y :: (text x y lines ++ rest) := by
      simp only [text, List.flatMap_cons, List.append_assoc, List.cons_append, List.nil_append]
    rw [htext, readLines_append hne hin, List.nil_append, if_neg hnil, ih hlines]
    rfl

end

variable {x y}

/-- What cannot begin the end of a line, in front of what has none. -/
theorem not_infix_append {a b : List α} (ha : x ∉ a) (hb : ¬ [x, y] <:+: b) :
    ¬ [x, y] <:+: a ++ b := by
  induction a with
  | nil => exact hb
  | cons c a ih =>
    intro hin
    rcases List.infix_cons_iff.mp hin with hpre | hin
    · obtain ⟨rfl, -⟩ := List.cons_prefix_cons.mp hpre
      exact ha List.mem_cons_self
    · exact ih (fun h => ha (List.mem_cons_of_mem _ h)) hin

/-- A line cannot have an end without its first item. -/
theorem isLine_of_notMem {line : List α} (hnil : line ≠ []) (h : x ∉ line) : IsLine x y line :=
  ⟨hnil, fun hin => h (hin.subset List.mem_cons_self)⟩

end Lines
