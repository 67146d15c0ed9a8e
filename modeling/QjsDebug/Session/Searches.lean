/-
# The two searches, and the regex rule

A statement is held against the breakpoint table twice: `check_breakpoint` asks whether some
breakpoint matches, and `debug_trace_handler` then searches again for its id and condition.
`breakpoints_` is a `std::map`, so both visit the table in id order, and over one table they
agree: the first is true exactly when the second stops, and it stops at the lowest id that
matches (`check_iff_finds_lowest`).

What they agree on is not what `urlRegex` promises.  The comment at the `catch` says that plain
matching is for malformed patterns, but the branch falls through to it whenever the pattern is not
found.  So a well-formed pattern also matches every file its TEXT is plainly related to, and it
follows its regex exactly where that adds nothing (`regex_breakpoint_exact_iff`).
-/
import QjsDebug.Session.Handler

namespace QjsDebug

variable {host : Host}

/-! ## 1. Agreement -/

section

variable (host)

/-- The entry of the table is enabled and matches the position. -/
def Matches (filename : Bytes) (line : Int) (p : Int × Breakpoint) : Prop :=
  p.2.enabled = true ∧ p.2.hits host filename line = true

end

theorem mem_hitting {filename : Bytes} {line : Int} {bps : List (Int × Breakpoint)}
    {p : Int × Breakpoint} :
    p ∈ hitting host filename line bps ↔ p ∈ bps ∧ Matches host filename line p := by
  rw [hitting, List.mem_filter, Bool.and_eq_true, Matches]

/-- In a `std::map` the first entry that matches has the lowest id of those that do. -/
theorem lowest_of_head_hitting {filename : Bytes} {line : Int} {bps : List (Int × Breakpoint)}
    {p : Int × Breakpoint} {rest : List (Int × Breakpoint)} (hsorted : SortedMap.Sorted bps)
    (h : hitting host filename line bps = p :: rest) :
    ∀ q ∈ bps, Matches host filename line q → p.1 ≤ q.1 := by
  have hord : (hitting host filename line bps).Pairwise fun a b => compare a.1 b.1 = .lt :=
    List.Pairwise.sublist List.filter_sublist (List.pairwise_map.mp hsorted)
  rw [h, List.pairwise_cons] at hord
  intro q hq hmatch
  have hin : q ∈ p :: rest := h ▸ mem_hitting.mpr ⟨hq, hmatch⟩
  rcases List.mem_cons.mp hin with rfl | hin
  · exact Int.le_refl _
  · exact Int.le_of_lt (Int.compare_eq_lt.mp (hord.1 q hin))

/-- **The two searches agree.**  For every table, file and line: `check_breakpoint` is true iff
breakpoints are active and the handler's own search of that table stops at an entry, which is the
enabled matching one of lowest id. -/
theorem check_iff_finds_lowest {s : Session} (hsorted : SortedMap.Sorted s.breakpoints)
    (filename : Bytes) (line : Int) :
    checkBreakpoint host s filename line = true ↔
      s.bpActive = true ∧
        ∃ p ∈ s.breakpoints,
          findBreakpoint host filename line s.breakpoints = (p.1, p.2.condition) ∧
          Matches host filename line p ∧
          ∀ q ∈ s.breakpoints, Matches host filename line q → p.1 ≤ q.1 := by
  rw [checkBreakpoint_iff, findBreakpoint_eq]
  refine and_congr_right fun _ => ?_
  constructor
  · intro hne
    obtain ⟨p, rest, hp⟩ := List.exists_cons_of_ne_nil hne
    obtain ⟨hmem, hmatch⟩ := mem_hitting.mp (hp ▸ List.mem_cons_self :
      p ∈ hitting host filename line s.breakpoints)
    exact ⟨p, hmem, by rw [hp], hmatch, lowest_of_head_hitting hsorted hp⟩
  · rintro ⟨p, hmem, -, hmatch, -⟩
    exact List.ne_nil_of_mem (mem_hitting.mpr ⟨hmem, hmatch⟩)

/-- The rule at a table of two breakpoints on one line. -/
theorem check_iff_finds_lowest_masked :
    checkBreakpoint posixHost maskedSession (ascii "/a.js") 3 = true ↔
      maskedSession.bpActive = true ∧
        ∃ p ∈ maskedSession.breakpoints,
          findBreakpoint posixHost (ascii "/a.js") 3 maskedSession.breakpoints =
            (p.1, p.2.condition) ∧
          Matches posixHost (ascii "/a.js") 3 p ∧
          ∀ q ∈ maskedSession.breakpoints, Matches posixHost (ascii "/a.js") 3 q → p.1 ≤ q.1 :=
  check_iff_finds_lowest (by unfold SortedMap.Sorted; decide) (ascii "/a.js") 3

/-! ## 2. What a regex breakpoint matches -/

section

variable (host)

/-- The pattern is found in the file URL or in the normalized path. -/
def PatternFound (pattern filename : Bytes) : Prop :=
  host.regexSearch pattern (toFileUrl (normalizeUrl filename)) = some true ∨
    host.regexSearch pattern (normalizeUrl filename) = some true

/-- Neither search throws. -/
def WellFormed (pattern filename : Bytes) : Prop :=
  host.regexSearch pattern (toFileUrl (normalizeUrl filename)) ≠ none ∧
    host.regexSearch pattern (normalizeUrl filename) ≠ none

/-- The text of a breakpoint and the path of a file are the same path, have the same base name, or
one is part of the other when case is ignored. -/
def PlainlyRelated (text norm : Bytes) : Prop :=
  pathsMatch host norm text = true ∨ pathsMatch host (baseName norm) (baseName text) = true ∨
    toLower text <:+: toLower norm ∨ toLower norm <:+: toLower text

end

theorem plainHit_iff {text norm : Bytes} :
    plainHit host text norm (baseName norm) = true ↔ PlainlyRelated host text norm := by
  simp only [plainHit, PlainlyRelated, contains, Bool.or_eq_true, decide_eq_true_eq, or_assoc]

/-- The regex attempt on a pattern that does not throw. -/
theorem regexHit_iff {pattern filename : Bytes} (h : WellFormed host pattern filename) :
    regexHit host pattern (toFileUrl (normalizeUrl filename)) (normalizeUrl filename) = true ↔
      PatternFound host pattern filename := by
  unfold regexHit PatternFound
  cases hurl : host.regexSearch pattern (toFileUrl (normalizeUrl filename)) with
  | none => exact absurd hurl h.1
  | some found =>
    cases found with
    | true => simp
    | false =>
      cases hnorm : host.regexSearch pattern (normalizeUrl filename) with
      | none => exact absurd hnorm h.2
      | some found => simp

/-- A table with one enabled regex breakpoint matches where the pattern is found, and where its
text is plainly related to the path. -/
theorem check_regex_iff {s : Session} {id : Int} {bp : Breakpoint} {filename : Bytes} {line : Int}
    (hact : s.bpActive = true) (hone : s.breakpoints = [(id, bp)]) (hen : bp.enabled = true)
    (hregex : bp.isRegex = true) (hwell : WellFormed host bp.url filename) :
    checkBreakpoint host s filename line = true ↔
      bp.line = line ∧
        (PatternFound host bp.url filename ∨
          PlainlyRelated host bp.url (normalizeUrl filename)) := by
  have hhits : bp.hits host filename line = true ↔ bp.line = line ∧
      (PatternFound host bp.url filename ∨
        PlainlyRelated host bp.url (normalizeUrl filename)) := by
    rw [Breakpoint.hits, Bool.and_eq_true, decide_eq_true_eq, Bool.or_eq_true, hregex,
      Bool.true_and, regexHit_iff hwell, plainHit_iff]
  rw [checkBreakpoint_iff, hone, hitting, List.filter_cons, hen, Bool.true_and, ← hhits]
  cases bp.hits host filename line <;> simp [hact]

/-- **A regex breakpoint follows its regex exactly where its text matches nothing more.**  For
every pattern that does not throw, every file and every line, the only breakpoint of the table:
`check_breakpoint` is true iff the line is equal and the pattern is found, if and only if on an
equal line a pattern whose text is plainly related to the path is found too. -/
theorem regex_breakpoint_exact_iff {s : Session} {id : Int} {bp : Breakpoint} {filename : Bytes}
    {line : Int} (hact : s.bpActive = true) (hone : s.breakpoints = [(id, bp)])
    (hen : bp.enabled = true) (hregex : bp.isRegex = true)
    (hwell : WellFormed host bp.url filename) :
    (checkBreakpoint host s filename line = true ↔
        bp.line = line ∧ PatternFound host bp.url filename) ↔
      (bp.line = line → PlainlyRelated host bp.url (normalizeUrl filename) →
        PatternFound host bp.url filename) := by
  rw [check_regex_iff hact hone hen hregex hwell]
  constructor
  · intro h hline hplain
    exact (h.mp ⟨hline, Or.inr hplain⟩).2
  · intro h
    refine and_congr_right fun hline => ⟨?_, Or.inl⟩
    rintro (hfound | hplain)
    · exact hfound
    · exact h hline hplain

/-- A POSIX build that searches without regard to case.  On patterns whose only metacharacters
are dots that stand for themselves in the text this is what the regex engine does. -/
def literalHost : Host where
  windows := false
  regexSearch := fun pattern text => some (contains (toLower text) (toLower pattern))

/-- A `urlRegex` breakpoint on line 3 of `/src/index.js`. -/
def regexBreakpoint : Breakpoint where
  id := 1
  url := ascii "/src/index.js"
  line := 3
  column := 0
  enabled := true
  isRegex := true
  condition := []

def regexSession : Session := { Session.new with breakpoints := [(1, regexBreakpoint)] }

/-- The rule at the file the pattern is about. -/
theorem regex_breakpoint_exact_iff_index :
    (checkBreakpoint literalHost regexSession (ascii "/src/index.js") 3 = true ↔
        regexBreakpoint.line = 3 ∧
          PatternFound literalHost regexBreakpoint.url (ascii "/src/index.js")) ↔
      (regexBreakpoint.line = 3 →
        PlainlyRelated literalHost regexBreakpoint.url (normalizeUrl (ascii "/src/index.js")) →
          PatternFound literalHost regexBreakpoint.url (ascii "/src/index.js")) :=
  @regex_breakpoint_exact_iff literalHost regexSession 1 regexBreakpoint _ _ rfl rfl rfl rfl
    ⟨by simp [literalHost], by simp [literalHost]⟩

/-- **Another file of the same name.**  The pattern `/src/index.js` is well formed and is not found
in `/lib/index.js`, neither in the path nor in its URL; the breakpoint matches there because the
base names of the two texts are equal. -/
theorem regex_breakpoint_hits_other_file :
    WellFormed literalHost regexBreakpoint.url (ascii "/lib/index.js") ∧
      ¬ (checkBreakpoint literalHost regexSession (ascii "/lib/index.js") 3 = true ↔
        regexBreakpoint.line = 3 ∧
          PatternFound literalHost regexBreakpoint.url (ascii "/lib/index.js")) := by
  refine ⟨⟨by simp [literalHost], by simp [literalHost]⟩, fun h => ?_⟩
  have hcheck : checkBreakpoint literalHost regexSession (ascii "/lib/index.js") 3 = true := by
    decide +kernel
  have hmissing :
      literalHost.regexSearch regexBreakpoint.url
          (toFileUrl (normalizeUrl (ascii "/lib/index.js"))) = some false ∧
        literalHost.regexSearch regexBreakpoint.url (normalizeUrl (ascii "/lib/index.js")) =
          some false := by
    decide +kernel
  rcases (h.mp hcheck).2 with hfound | hfound
  · rw [hmissing.1] at hfound
    exact absurd hfound (by simp)
  · rw [hmissing.2] at hfound
    exact absurd hfound (by simp)

end QjsDebug
