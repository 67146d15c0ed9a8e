/-
# Which texts make the parser throw

Reading a text never fails; converting its pieces may (`Json.Refinement`).  The conversions
the parser attempts on a text are known beforehand: the number tokens and the `\u` escapes
among the pieces `scan` finds.  So `parse` returns a value exactly when each of them
succeeds, and otherwise throws.
-/
import QjsDebug.Json.Refinement

namespace QjsDebug.Json

/-- A library conversion of the parser: `std::stod` on a number token, or `std::stoul` on the
four bytes behind a `\u`. -/
inductive Conversion
  | number (token : Bytes)
  | escape (digits : Bytes)
  deriving DecidableEq, Repr

def Piece.conversions : Piece → List Conversion
  | .byte _ => []
  | .escape digits => [.escape digits]

mutual
/-- The conversions of a value, in the order of the text. -/
def Raw.conversions : Raw → List Conversion
  | .null => []
  | .bool _ => []
  | .number token => [.number token]
  | .string ps => ps.flatMap Piece.conversions
  | .array xs => elementConversions xs
  | .object ms => memberConversions ms
def elementConversions : List Raw → List Conversion
  | [] => []
  | x :: xs => x.conversions ++ elementConversions xs
def memberConversions : List (List Piece × Raw) → List Conversion
  | [] => []
  | (k, x) :: ms => k.flatMap Piece.conversions ++ (x.conversions ++ memberConversions ms)
end

section

variable (stod : Bytes → Except Exn Double)

/-- The conversion does not throw. -/
def Conversion.succeeds : Conversion → Bool
  | .number token => (stod token).isOk
  | .escape digits => (stoulHex digits).isOk

/-- Every number token and every `\u` escape the parser comes to can be converted. -/
def Convertible (s : Bytes) : Prop :=
  ∀ c ∈ (scan s).conversions, c.succeeds stod = true

theorem isOk_bind {ε α β : Type} (x : Except ε α) (f : α → Except ε β) {b : Bool}
    (h : ∀ a, (f a).isOk = b) : (x >>= f).isOk = (x.isOk && b) := by
  cases x with
  | error e => rfl
  | ok a => exact (h a).trans (Bool.true_and b).symm

theorem isOk_convertPiece (p : Piece) :
    p.convert.isOk = p.conversions.all (Conversion.succeeds stod) := by
  cases p with
  | byte c => rfl
  | escape digits =>
    simp only [Piece.convert, decodeEscape, Piece.conversions, List.all_cons, List.all_nil,
      Conversion.succeeds, Bool.and_true]
    cases stoulHex digits <;> rfl

theorem isOk_convertString (ps : List Piece) :
    (convertString ps).isOk =
      (ps.flatMap Piece.conversions).all (Conversion.succeeds stod) := by
  induction ps with
  | nil => rfl
  | cons p ps ih =>
    rw [convertString, List.flatMap_cons, List.all_append, ← isOk_convertPiece, ← ih]
    refine isOk_bind _ _ fun bytes => ?_
    cases convertString ps <;> rfl

mutual
/-- Converting a value succeeds when all its conversions do. -/
theorem Raw.isOk_convert : (x : Raw) →
    (x.convert stod).isOk = x.conversions.all (Conversion.succeeds stod)
  | .null => rfl
  | .bool _ => rfl
  | .number token => by
    simp only [Raw.convert, Raw.conversions, List.all_cons, List.all_nil, Conversion.succeeds,
      Bool.and_true]
    cases stod token <;> rfl
  | .string ps => by
    rw [Raw.convert, Raw.conversions, ← isOk_convertString]
    cases convertString ps <;> rfl
  | .array xs => by
    rw [Raw.convert, Raw.conversions]
    exact isOk_convertElements xs _
  | .object ms => by
    rw [Raw.convert, Raw.conversions]
    exact isOk_convertMembers ms _
theorem isOk_convertElements : (xs : List Raw) → (arr : Value) →
    (convertElements stod xs arr).isOk =
      (elementConversions xs).all (Conversion.succeeds stod)
  | [], _ => rfl
  | x :: xs, arr => by
    rw [convertElements, elementConversions, List.all_append, ← x.isOk_convert]
    exact isOk_bind _ _ fun val => isOk_convertElements xs _
theorem isOk_convertMembers : (ms : List (List Piece × Raw)) → (obj : Value) →
    (convertMembers stod ms obj).isOk = (memberConversions ms).all (Conversion.succeeds stod)
  | [], _ => rfl
  | (k, x) :: ms, obj => by
    rw [convertMembers, memberConversions, List.all_append, List.all_append,
      ← isOk_convertString, ← x.isOk_convert]
    exact isOk_bind _ _ fun key => isOk_bind _ _ fun val => isOk_convertMembers ms _
end

/-- **`parse` returns a value iff every conversion it comes to succeeds**, and throws
otherwise: it neither reads out of bounds nor runs out of fuel. -/
theorem parse_returns_or_throws (s : Bytes) :
    (Convertible stod s ∧ ∃ v, parse stod s = .ok v) ∨
      (¬ Convertible stod s ∧ ∃ e, parse stod s = .error (.exn e)) := by
  have hconv : Convertible stod s ↔ ((scan s).convert stod).isOk = true := by
    rw [Raw.isOk_convert, List.all_eq_true]
    exact Iff.rfl
  rw [parse_eq, hconv]
  cases (scan s).convert stod with
  | ok v => exact Or.inl ⟨rfl, v, rfl⟩
  | error e => exact Or.inr ⟨by simp [Except.isOk, Except.toBool], e, rfl⟩

/-- The same, as an equivalence. -/
theorem parse_returns_iff (s : Bytes) :
    (∃ v, parse stod s = .ok v) ↔ Convertible stod s := by
  rcases parse_returns_or_throws stod s with ⟨hc, hv⟩ | ⟨hc, e, he⟩
  · exact ⟨fun _ => hc, fun _ => hv⟩
  · refine ⟨fun ⟨v, hv⟩ => ?_, fun h => absurd h hc⟩
    rw [he] at hv
    exact absurd hv (by simp)

end

/-- A number token without a digit, and a `\u` escape that takes the closing quote along. -/
example : (scan (ascii "[-.e5,\"\\uzz\" ,")).conversions =
    [.number (ascii "-.e5"), .escape (ascii "zz\" ")] := by decide +kernel

end QjsDebug.Json
