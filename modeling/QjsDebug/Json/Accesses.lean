/-
# Where the parser reads

The parser of `Json.Parse` once more, with a log of the places at which it reads the text
(`Lib.Logged`): `s[p]`, `s.compare(p, ...)` and `s.substr(p, ...)`, each noted before it is made.
The loops are bounded as they are there, but here a loop that reaches its bound with bytes left
fails (`atBound`), so that an ending is an ending of the C++ loops.

Each routine is compared with the one of `Json.Parse`: started within the text it reads only within
the text, ends by a value or by an exception, and leaves the position within the text, not before
the one it got (`Safe`).  What makes the nesting end is that an object or array hands on a position
behind its opening bracket.
-/
import QjsDebug.Json.RoundTrip
import QjsDebug.Lib.Logged

namespace QjsDebug.Json

open Logged (note)

/-- A use of the text. -/
inductive Access
  | index (p : Nat)
  | compare (p : Nat)
  | substr (p : Nat)
  deriving DecidableEq, Repr

/-- What the string functions require of a position: a byte to read at, or a place to count from,
which may be the end. -/
def Access.Within (s : Bytes) : Access → Prop
  | .index p => p < s.length
  | .compare p => p ≤ s.length
  | .substr p => p ≤ s.length

/-- A routine that notes what it reads. -/
abbrev Watched := Logged Access Fault

namespace Watched

/-! ## 1. The routines -/

/-- `s[p]`. -/
def charAt (s : Bytes) (p : Nat) : Watched UInt8 := do
  note (.index p)
  ofExcept (Json.charAt s p)

/-- `p < s.size() && test(s[p])`. -/
def here (s : Bytes) (p : Nat) (test : UInt8 → Bool) : Watched Bool :=
  if p < s.length then do return test (← charAt s p) else return false

/-- `s.substr(p, n)`. -/
def substr (s : Bytes) (p n : Nat) : Watched Bytes := do
  note (.substr p)
  ofExcept (Json.substr s p n)

/-- `s.compare(p, n, word) == 0`. -/
def compareAt (s : Bytes) (p n : Nat) (word : Bytes) : Watched Bool := do
  note (.compare p)
  ofExcept (Json.compareAt s p n word)

/-- A loop at its bound has to be over. -/
def atBound {α : Type} (s : Bytes) (p : Nat) (a : α) : Watched α :=
  if p < s.length then throw .fuel else return a

/-- `while (p < s.size() && test(s[p])) p++`. -/
def skipWhile (test : UInt8 → Bool) (s : Bytes) : Nat → Nat → Watched Nat
  | 0, p => atBound s p p
  | n + 1, p => do if ← here s p test then skipWhile test s n (p + 1) else return p

/-- `skip_ws`. -/
def skipWs (s : Bytes) (p : Nat) : Watched Nat := skipWhile isWs s (s.length - p) p

/-- The loop of `parse_string`. -/
def stringLoop (s : Bytes) : Nat → Bytes → Nat → Watched (Bytes × Nat)
  | 0, r, p => atBound s p (r, p)
  | n + 1, r, p => do
    if ← here s p (· != byte '"') then
      let c ← charAt s p
      if c = byte '\\' then
        if s.length ≤ p + 1 then return (r, p + 1)
        else
          let e ← charAt s (p + 1)
          if e = byte 'u' then
            if p + 1 + 4 < s.length then
              let digits ← substr s (p + 2) 4
              let bytes ← ofExcept (lib (decodeEscape digits))
              stringLoop s n (r ++ bytes) (p + 6)
            else stringLoop s n r (p + 2)
          else stringLoop s n (r ++ [unescape e]) (p + 2)
      else stringLoop s n (r ++ [c]) (p + 1)
    else return (r, p)

/-- `parse_string`. -/
def parseString (s : Bytes) (p : Nat) : Watched (Bytes × Nat) := do
  let (r, p) ← stringLoop s (s.length - (p + 1)) [] (p + 1)
  return (r, if p < s.length then p + 1 else p)

/-- `if (p < s.size() && test(s[p])) p++`. -/
def skipIf (test : UInt8 → Bool) (s : Bytes) (p : Nat) : Watched Nat := do
  if ← here s p test then return p + 1 else return p

def skipDigits (s : Bytes) (p : Nat) : Watched Nat := skipWhile isDigit s (s.length - p) p

def skipFraction (s : Bytes) (p : Nat) : Watched Nat := do
  if ← here s p (· == byte '.') then skipDigits s (p + 1) else return p

def skipExponent (s : Bytes) (p : Nat) : Watched Nat := do
  if ← here s p (fun c => c == byte 'e' || c == byte 'E') then
    let p ← skipIf (fun c => c == byte '+' || c == byte '-') s (p + 1)
    skipDigits s p
  else return p

def numberEnd (s : Bytes) (p : Nat) : Watched Nat := do
  let p ← skipIf (· == byte '-') s p
  let p ← skipDigits s p
  let p ← skipFraction s p
  skipExponent s p

/-- `parse_number`. -/
def parseNumber (stod : Bytes → Except Exn Double) (s : Bytes) (start : Nat) :
    Watched (Value × Nat) := do
  let p ← numberEnd s start
  let token ← substr s start (p - start)
  let d ← ofExcept (lib (stod token))
  return (.number d, p)

/-- `parse_bool`. -/
def parseBool (s : Bytes) (p : Nat) : Watched (Value × Nat) := do
  if ← compareAt s p 4 (ascii "true") then return (.bool true, p + 4)
  else if ← compareAt s p 5 (ascii "false") then return (.bool false, p + 5)
  else return (.null, p)

/-- `parse_null`. -/
def parseNull (s : Bytes) (p : Nat) : Watched (Value × Nat) := do
  if ← compareAt s p 4 (ascii "null") then return (.null, p + 4) else return (.null, p)

section

variable (value : Nat → Watched (Value × Nat)) (s : Bytes)

/-- The loop of `parse_object`. -/
def objectLoop : Nat → Value → Nat → Watched (Value × Nat)
  | 0, obj, p => atBound s p (obj, p)
  | n + 1, obj, p => do
    if p < s.length then
      let p ← skipWs s p
      if ← here s p (· == byte '"') then
        let (key, p) ← parseString s p
        let p ← skipWs s p
        let p ← skipIf (· == byte ':') s p
        let (val, p) ← value p
        let p ← skipWs s p
        if ← here s p (· == byte ',') then objectLoop n (obj.set key val) (p + 1)
        else return (obj.set key val, p)
      else return (obj, p)
    else return (obj, p)

/-- `parse_object`. -/
def parseObject (p : Nat) : Watched (Value × Nat) := do
  let p ← skipWs s (p + 1)
  if ← here s p (· == byte '}') then return (.object [], p + 1)
  else
    let (obj, p) ← objectLoop value s (s.length - p) (.object []) p
    let p ← skipWs s p
    let p ← skipIf (· == byte '}') s p
    return (obj, p)

/-- The loop of `parse_array`. -/
def arrayLoop : Nat → Value → Nat → Watched (Value × Nat)
  | 0, arr, p => atBound s p (arr, p)
  | n + 1, arr, p => do
    if p < s.length then
      let (val, p) ← value p
      let p ← skipWs s p
      if ← here s p (· == byte ',') then arrayLoop n (arr.push val) (p + 1)
      else return (arr.push val, p)
    else return (arr, p)

/-- `parse_array`. -/
def parseArray (p : Nat) : Watched (Value × Nat) := do
  let p ← skipWs s (p + 1)
  if ← here s p (· == byte ']') then return (.array [], p + 1)
  else
    let (arr, p) ← arrayLoop value s (s.length - p) (.array []) p
    let p ← skipWs s p
    let p ← skipIf (· == byte ']') s p
    return (arr, p)

end

/-- `parse_value`, for a nesting below the first argument. -/
def parseValue (stod : Bytes → Except Exn Double) (s : Bytes) :
    Nat → Nat → Watched (Value × Nat)
  | 0, _ => throw .fuel
  | n + 1, p => do
    let p ← skipWs s p
    if s.length ≤ p then return (.null, p)
    else
      let c ← charAt s p
      if c = byte '"' then
        let (r, p) ← parseString s p
        return (.string r, p)
      else if c = byte '{' then parseObject (parseValue stod s n) s p
      else if c = byte '[' then parseArray (parseValue stod s n) s p
      else if c = byte 't' ∨ c = byte 'f' then parseBool s p
      else if c = byte 'n' then parseNull s p
      else parseNumber stod s p

/-! ## 2. Reading -/

/-- **A routine that stays in the text**: it does what its original in `Json.Parse` does, every
access is within the text, and a failure is an exception. -/
def Safe {α : Type} (s : Bytes) (m : Watched α) (x : Except Fault α) (Q : α → Prop) : Prop :=
  Logged.Meets (Access.Within s) (fun f => ∃ e, f = .exn e) m x Q

/-- A position behind `p`, in the text or at its end. -/
def Ahead (s : Bytes) (p q : Nat) : Prop := p ≤ q ∧ q ≤ s.length

variable {s : Bytes} {p n : Nat} {test : UInt8 → Bool}

theorem safe_charAt (h : p < s.length) :
    Safe s (charAt s p) (Json.charAt s p) fun _ => True := by
  have hread : Json.charAt s p = .ok s[p] := by
    rw [Json.charAt, List.getElem?_eq_getElem h]
  refine Logged.Meets.note h (Logged.Meets.ofExcept (fun _ _ => trivial) fun f hf => ?_)
  rw [hread] at hf
  cases hf

/-- The test guards its own reading. -/
theorem safe_here : Safe s (here s p test) (Json.here s p test) fun b => b = true → p < s.length :=
  Logged.Meets.ite
    (fun h => Logged.Meets.bind (safe_charAt h) fun _ _ => Logged.Meets.pure fun _ => h)
    fun _ => Logged.Meets.pure nofun

theorem substr_of_le (h : p ≤ s.length) : Json.substr s p n = .ok ((s.drop p).take n) :=
  if_neg (Nat.not_lt.mpr h)

theorem safe_substr (h : p ≤ s.length) :
    Safe s (substr s p n) (Json.substr s p n) fun _ => True := by
  refine Logged.Meets.note h (Logged.Meets.ofExcept (fun _ _ => trivial) fun f hf => ?_)
  rw [substr_of_le h] at hf
  cases hf

/-- A word that is there has room there. -/
theorem safe_compareAt {word : Bytes} (h : p ≤ s.length) (hw : word.length = n) :
    Safe s (compareAt s p n word) (Json.compareAt s p n word)
      fun b => b = true → p + n ≤ s.length := by
  have hcompare : Json.compareAt s p n word = .ok ((s.drop p).take n == word) := by
    rw [Json.compareAt, substr_of_le h]
    rfl
  refine Logged.Meets.note h (Logged.Meets.ofExcept (fun b hb htrue => ?_) fun f hf => ?_)
  · rw [hcompare] at hb
    have hword : (s.drop p).take n = word := by
      rw [← beq_iff_eq, Except.ok.inj hb]
      exact htrue
    have hlen := congrArg List.length hword
    rw [List.length_take, List.length_drop] at hlen
    omega
  · rw [hcompare] at hf
    cases hf

/-- A library call ends by a value or by an exception. -/
theorem safe_lib {α : Type} (x : Except Exn α) :
    Safe s (ofExcept (lib x)) (lib x) fun _ => True := by
  refine Logged.Meets.ofExcept (fun _ _ => trivial) fun f hf => ?_
  cases x with
  | ok a => cases hf
  | error e => exact ⟨e, (Except.error.inj hf).symm⟩

theorem safe_atBound {α : Type} {a : α} {Q : α → Prop} (h : s.length ≤ p) (ha : Q a) :
    Safe s (atBound s p a) (return a) Q := by
  rw [atBound, if_neg (Nat.not_lt.mpr h)]
  exact Logged.Meets.pure ha

/-! ## 3. Loops and tokens -/

theorem Ahead.refl (h : p ≤ s.length) : Ahead s p p := ⟨Nat.le_refl p, h⟩

theorem Ahead.after {p' q : Nat} (h : Ahead s p' q) (hp : p ≤ p') : Ahead s p q :=
  ⟨hp.trans h.1, h.2⟩

theorem safe_skipWhile (hp : p ≤ s.length) (hn : s.length ≤ p + n) :
    Safe s (skipWhile test s n p) (Json.skipWhile test s n p) (Ahead s p) := by
  induction n generalizing p with
  | zero => exact safe_atBound hn (Ahead.refl hp)
  | succ n ih =>
    refine Logged.Meets.bind safe_here fun b hb => Logged.Meets.ite (fun htrue => ?_) fun _ => ?_
    · have hlt := hb htrue
      exact (ih hlt (by omega)).weaken fun q hq => hq.after (Nat.le_succ p)
    · exact Logged.Meets.pure (Ahead.refl hp)

theorem safe_skipWs (hp : p ≤ s.length) : Safe s (skipWs s p) (Json.skipWs s p) (Ahead s p) :=
  safe_skipWhile hp (by omega)

theorem safe_skipDigits (hp : p ≤ s.length) :
    Safe s (skipDigits s p) (Json.skipDigits s p) (Ahead s p) :=
  safe_skipWhile hp (by omega)

theorem safe_skipIf (hp : p ≤ s.length) :
    Safe s (skipIf test s p) (Json.skipIf test s p) (Ahead s p) :=
  Logged.Meets.bind safe_here fun _ hb => Logged.Meets.ite
    (fun htrue => Logged.Meets.pure ⟨Nat.le_succ p, hb htrue⟩)
    fun _ => Logged.Meets.pure (Ahead.refl hp)

/-- **The loop of `parse_string`.**  A turn takes one byte, two, or six; the six are there when the
four digits are, and a backslash at the end leaves the position at the end. -/
theorem safe_stringLoop {r : Bytes} (hp : p ≤ s.length) (hn : s.length ≤ p + n) :
    Safe s (stringLoop s n r p) (Json.stringLoop s n r p) fun x => Ahead s p x.2 := by
  induction n generalizing r p with
  | zero => exact safe_atBound hn (Ahead.refl hp)
  | succ n ih =>
    -- the turns that follow, from a position further on
    have hnext : ∀ {r : Bytes} {k : Nat}, 0 < k → p + k ≤ s.length →
        Safe s (stringLoop s n r (p + k)) (Json.stringLoop s n r (p + k)) fun x => Ahead s p x.2 :=
      fun hk hle => (ih hle (by omega)).weaken fun x hx => hx.after (Nat.le_add_right p _)
    refine Logged.Meets.bind safe_here fun b hb => Logged.Meets.ite (fun htrue => ?_) fun _ =>
      Logged.Meets.pure (Ahead.refl hp)
    have hlt := hb htrue
    refine Logged.Meets.bind (safe_charAt hlt) fun c _ => Logged.Meets.ite (fun _ => ?_) fun _ =>
      hnext (by decide) hlt
    refine Logged.Meets.ite (fun _ => Logged.Meets.pure ⟨Nat.le_succ p, hlt⟩) fun hmore => ?_
    have hsecond : p + 1 < s.length := Nat.lt_of_not_le hmore
    refine Logged.Meets.bind (safe_charAt hsecond) fun e _ => Logged.Meets.ite (fun _ => ?_)
      fun _ => hnext (by decide) hsecond
    refine Logged.Meets.ite (fun hroom => ?_) fun _ => hnext (by decide) hsecond
    exact Logged.Meets.bind (safe_substr hsecond) fun digits _ =>
      Logged.Meets.bind (safe_lib _) fun bytes _ => hnext (by decide) (by omega)

/-- The position of `parse_string` is at the opening quote. -/
theorem safe_parseString (hp : p < s.length) :
    Safe s (parseString s p) (Json.parseString s p) fun x => Ahead s (p + 1) x.2 := by
  refine Logged.Meets.bind (safe_stringLoop hp (by omega)) fun ⟨r, q⟩ hq => Logged.Meets.pure ?_
  obtain ⟨hle, hend⟩ := hq
  dsimp only at hle hend ⊢
  split
  · exact ⟨by omega, by omega⟩
  · exact ⟨hle, hend⟩

theorem safe_skipFraction (hp : p ≤ s.length) :
    Safe s (skipFraction s p) (Json.skipFraction s p) (Ahead s p) :=
  Logged.Meets.bind safe_here fun _ hb => Logged.Meets.ite
    (fun htrue => (safe_skipDigits (hb htrue)).weaken fun _ hq => hq.after (Nat.le_succ p))
    fun _ => Logged.Meets.pure (Ahead.refl hp)

theorem safe_skipExponent (hp : p ≤ s.length) :
    Safe s (skipExponent s p) (Json.skipExponent s p) (Ahead s p) := by
  refine Logged.Meets.bind safe_here fun b hb => Logged.Meets.ite (fun htrue => ?_)
    fun _ => Logged.Meets.pure (Ahead.refl hp)
  exact Logged.Meets.bind (safe_skipIf (hb htrue)) fun p₁ h₁ =>
    (safe_skipDigits h₁.2).weaken fun q hq => hq.after (Nat.le_of_succ_le h₁.1)

theorem safe_numberEnd (hp : p ≤ s.length) :
    Safe s (numberEnd s p) (Json.numberEnd s p) (Ahead s p) :=
  Logged.Meets.bind (safe_skipIf hp) fun _ h₁ =>
    Logged.Meets.bind (safe_skipDigits h₁.2) fun _ h₂ =>
      Logged.Meets.bind (safe_skipFraction h₂.2) fun _ h₃ =>
        (safe_skipExponent h₃.2).weaken fun _ h₄ =>
          h₄.after (h₁.1.trans (h₂.1.trans h₃.1))

theorem safe_parseNumber {stod : Bytes → Except Exn Double} (hp : p ≤ s.length) :
    Safe s (parseNumber stod s p) (Json.parseNumber stod s p) fun x => Ahead s p x.2 :=
  Logged.Meets.bind (safe_numberEnd hp) fun _ hq =>
    Logged.Meets.bind (safe_substr hp) fun _ _ =>
      Logged.Meets.bind (safe_lib _) fun _ _ => Logged.Meets.pure hq

/-- A misspelt keyword takes nothing. -/
theorem safe_parseBool (hp : p ≤ s.length) :
    Safe s (parseBool s p) (Json.parseBool s p) fun x => Ahead s p x.2 := by
  refine Logged.Meets.bind (safe_compareAt hp rfl) fun b hb => Logged.Meets.ite
    (fun htrue => Logged.Meets.pure ⟨Nat.le_add_right p 4, hb htrue⟩) fun _ => ?_
  exact Logged.Meets.bind (safe_compareAt hp rfl) fun b' hb' => Logged.Meets.ite
    (fun htrue => Logged.Meets.pure ⟨Nat.le_add_right p 5, hb' htrue⟩) fun _ =>
      Logged.Meets.pure (Ahead.refl hp)

theorem safe_parseNull (hp : p ≤ s.length) :
    Safe s (parseNull s p) (Json.parseNull s p) fun x => Ahead s p x.2 :=
  Logged.Meets.bind (safe_compareAt hp rfl) fun _ hb => Logged.Meets.ite
    (fun htrue => Logged.Meets.pure ⟨Nat.le_add_right p 4, hb htrue⟩) fun _ =>
      Logged.Meets.pure (Ahead.refl hp)

/-! ## 4. Objects, arrays, values -/

section

variable {low : Nat} {value : Nat → Watched (Value × Nat)}
  {value' : Nat → Except Fault (Value × Nat)}

/-- **The loop of `parse_object`**, on a parser of values that is safe from `low` on.  A turn takes
at least the quote of its key. -/
theorem safe_objectLoop
    (hvalue : ∀ q, Ahead s low q → Safe s (value q) (value' q) fun x => Ahead s q x.2)
    {obj : Value} (hp : Ahead s low p) (hn : s.length ≤ p + n) :
    Safe s (objectLoop value s n obj p) (Json.objectLoop value' s n obj p)
      fun x => Ahead s p x.2 := by
  induction n generalizing obj p with
  | zero => exact safe_atBound hn (Ahead.refl hp.2)
  | succ n ih =>
    refine Logged.Meets.ite (fun _ => ?_) fun _ => Logged.Meets.pure (Ahead.refl hp.2)
    refine Logged.Meets.bind (safe_skipWs hp.2) fun p₁ h₁ => ?_
    refine Logged.Meets.bind safe_here fun b hb => Logged.Meets.ite (fun htrue => ?_) fun _ =>
      Logged.Meets.pure h₁
    refine Logged.Meets.bind (safe_parseString (hb htrue)) fun ⟨key, p₂⟩ h₂ => ?_
    refine Logged.Meets.bind (safe_skipWs h₂.2) fun p₃ h₃ => ?_
    refine Logged.Meets.bind (safe_skipIf h₃.2) fun p₄ h₄ => ?_
    have hkey : p < p₄ := h₁.1.trans_lt (h₂.1.trans (h₃.1.trans h₄.1))
    refine Logged.Meets.bind (hvalue p₄ ⟨hp.1.trans hkey.le, h₄.2⟩) fun ⟨val, p₅⟩ h₅ => ?_
    refine Logged.Meets.bind (safe_skipWs h₅.2) fun p₆ h₆ => ?_
    have hturn : Ahead s p p₆ := h₆.after (hkey.le.trans h₅.1)
    refine Logged.Meets.bind safe_here fun b' hb' => Logged.Meets.ite (fun hcomma => ?_) fun _ =>
      Logged.Meets.pure hturn
    have hmore : Ahead s p (p₆ + 1) := ⟨hturn.1.trans (Nat.le_succ p₆), hb' hcomma⟩
    have hbound : s.length ≤ p₆ + 1 + n := by
      have := hturn.1
      omega
    exact (ih (hmore.after hp.1) hbound).weaken fun x hx => hx.after hmore.1

/-- **The loop of `parse_array`.**  A turn takes at least the comma behind its element. -/
theorem safe_arrayLoop
    (hvalue : ∀ q, Ahead s low q → Safe s (value q) (value' q) fun x => Ahead s q x.2)
    {arr : Value} (hp : Ahead s low p) (hn : s.length ≤ p + n) :
    Safe s (arrayLoop value s n arr p) (Json.arrayLoop value' s n arr p)
      fun x => Ahead s p x.2 := by
  induction n generalizing arr p with
  | zero => exact safe_atBound hn (Ahead.refl hp.2)
  | succ n ih =>
    refine Logged.Meets.ite (fun _ => ?_) fun _ => Logged.Meets.pure (Ahead.refl hp.2)
    refine Logged.Meets.bind (hvalue p hp) fun ⟨val, p₁⟩ h₁ => ?_
    refine Logged.Meets.bind (safe_skipWs h₁.2) fun p₂ h₂ => ?_
    have hturn : Ahead s p p₂ := h₂.after h₁.1
    refine Logged.Meets.bind safe_here fun b hb => Logged.Meets.ite (fun hcomma => ?_) fun _ =>
      Logged.Meets.pure hturn
    have hmore : Ahead s p (p₂ + 1) := ⟨hturn.1.trans (Nat.le_succ p₂), hb hcomma⟩
    have hbound : s.length ≤ p₂ + 1 + n := by
      have := hturn.1
      omega
    exact (ih (hmore.after hp.1) hbound).weaken fun x hx => hx.after hmore.1

/-- **Between two brackets**: the opening one is skipped, and the closing one if it is there.  What
is between them starts behind the first. -/
theorem safe_enclosed {close : UInt8} {empty : Value} {m : Nat → Watched (Value × Nat)}
    {m' : Nat → Except Fault (Value × Nat)} (hp : p < s.length)
    (hm : ∀ q, Ahead s (p + 1) q → Safe s (m q) (m' q) fun x => Ahead s q x.2) :
    Safe s
      (do
        let p ← skipWs s (p + 1)
        if ← here s p (· == close) then return (empty, p + 1)
        else
          let (v, p) ← m p
          let p ← skipWs s p
          let p ← skipIf (· == close) s p
          return (v, p))
      (do
        let p ← Json.skipWs s (p + 1)
        if ← Json.here s p (· == close) then return (empty, p + 1)
        else
          let (v, p) ← m' p
          let p ← Json.skipWs s p
          let p ← Json.skipIf (· == close) s p
          return (v, p))
      fun x => Ahead s p x.2 := by
  refine Logged.Meets.bind (safe_skipWs hp) fun p₁ h₁ => ?_
  have hopen : p ≤ p₁ := (Nat.le_succ p).trans h₁.1
  refine Logged.Meets.bind safe_here fun b hb => Logged.Meets.ite (fun htrue => ?_) fun _ => ?_
  · exact Logged.Meets.pure ⟨hopen.trans (Nat.le_succ p₁), hb htrue⟩
  · refine Logged.Meets.bind (hm p₁ h₁) fun ⟨v, p₂⟩ h₂ => ?_
    refine Logged.Meets.bind (safe_skipWs h₂.2) fun p₃ h₃ => ?_
    refine Logged.Meets.bind (safe_skipIf h₃.2) fun p₄ h₄ => Logged.Meets.pure ?_
    exact h₄.after (hopen.trans (h₂.1.trans h₃.1))

/-- **`parse_object`.** -/
theorem safe_parseObject
    (hvalue : ∀ q, Ahead s (p + 1) q → Safe s (value q) (value' q) fun x => Ahead s q x.2)
    (hp : p < s.length) :
    Safe s (parseObject value s p) (Json.parseObject value' s p) fun x => Ahead s p x.2 :=
  safe_enclosed hp fun _ hq => safe_objectLoop hvalue hq (by omega)

/-- **`parse_array`.** -/
theorem safe_parseArray
    (hvalue : ∀ q, Ahead s (p + 1) q → Safe s (value q) (value' q) fun x => Ahead s q x.2)
    (hp : p < s.length) :
    Safe s (parseArray value s p) (Json.parseArray value' s p) fun x => Ahead s p x.2 :=
  safe_enclosed hp fun _ hq => safe_arrayLoop hvalue hq (by omega)

end

/-- **`parse_value` stays in the text**, for every bound on the nesting that exceeds the number of
bytes left: a value inside an object or an array starts behind the bracket, with fewer bytes left
and a bound that is smaller by one.  The original may have another bound. -/
theorem safe_parseValue {stod : Bytes → Except Exn Double} {m : Nat} (hp : p ≤ s.length)
    (hn : s.length < p + n) (hm : s.length < p + m) :
    Safe s (parseValue stod s n p) (Json.parseValue stod s m p) fun x => Ahead s p x.2 := by
  induction n generalizing p m with
  | zero => exact absurd hn (Nat.not_lt.mpr hp)
  | succ n ih =>
    obtain ⟨m, rfl⟩ : ∃ k, m = k + 1 := Nat.exists_eq_succ_of_ne_zero (by omega)
    refine Logged.Meets.bind (safe_skipWs hp) fun p₁ h₁ => ?_
    refine Logged.Meets.ite (fun _ => Logged.Meets.pure h₁) fun hmore => ?_
    have hlt : p₁ < s.length := Nat.lt_of_not_le hmore
    have hinner : ∀ q, Ahead s (p₁ + 1) q →
        Safe s (parseValue stod s n q) (Json.parseValue stod s m q) fun x => Ahead s q x.2 := by
      intro q hq
      have hle := h₁.1.trans_lt hq.1
      exact ih hq.2 (by omega) (by omega)
    refine Logged.Meets.bind (safe_charAt hlt) fun c _ => ?_
    refine Logged.Meets.ite (fun _ => ?_) fun _ => ?_
    · refine Logged.Meets.bind (safe_parseString hlt) fun ⟨r, q⟩ hq => Logged.Meets.pure ?_
      exact hq.after (h₁.1.trans (Nat.le_succ p₁))
    · have hfrom : ∀ {m : Watched (Value × Nat)} {x : Except Fault (Value × Nat)},
          Safe s m x (fun y => Ahead s p₁ y.2) → Safe s m x fun y => Ahead s p y.2 :=
        fun h => h.weaken fun y hy => hy.after h₁.1
      refine hfrom ?_
      refine Logged.Meets.ite (fun _ => safe_parseObject hinner hlt) fun _ => ?_
      refine Logged.Meets.ite (fun _ => safe_parseArray hinner hlt) fun _ => ?_
      refine Logged.Meets.ite (fun _ => safe_parseBool hlt.le) fun _ => ?_
      exact Logged.Meets.ite (fun _ => safe_parseNull hlt.le) fun _ => safe_parseNumber hlt.le

/-! ## 5. The parser -/

/-- **The parser always ends and never leaves the text.**  On every byte string and from every
position in it, `parse_value` reads only within the text, and returns a value with a position that
is not before the first one nor behind the end, or throws.  A bound on the nesting above the number
of bytes left is never reached, and which one it is does not matter: the result is that of the
`parse_value` of `Json.Parse` with any other. -/
theorem parse_value_stays {stod : Bytes → Except Exn Double} {s : Bytes} {n p : Nat}
    (hp : p ≤ s.length) (hn : s.length < p + n) :
    (∀ a ∈ (parseValue stod s n p).log, a.Within s) ∧
    ((∃ v q, (parseValue stod s n p).result = .ok (v, q) ∧ p ≤ q ∧ q ≤ s.length) ∨
      ∃ e, (parseValue stod s n p).result = .error (.exn e)) ∧
    ∀ m, s.length < p + m → (parseValue stod s n p).result = Json.parseValue stod s m p := by
  have hsafe := @safe_parseValue s p n stod n hp hn hn
  refine ⟨hsafe.log, ?_, fun m hm => (safe_parseValue hp hn hm).result⟩
  rcases hsafe.ends with ⟨⟨v, q⟩, hresult, hq⟩ | ⟨f, hresult, e, rfl⟩
  · exact .inl ⟨v, q, hresult, hq⟩
  · exact .inr ⟨e, hresult⟩

/-- A text that ends inside an escape, inside a key, inside an array. -/
theorem parse_value_stays_cut :
    (∀ a ∈ (parseValue stodInteger (ascii "[\x7b\"k\\u12") 9 0).log,
      a.Within (ascii "[\x7b\"k\\u12")) ∧
    (parseValue stodInteger (ascii "[\x7b\"k\\u12") 9 0).result =
      .ok (.array [.object [(ascii "k12", .null)]], 8) := by
  have hstays := @parse_value_stays stodInteger (ascii "[\x7b\"k\\u12") 9 0 (by decide)
    (by decide)
  exact ⟨hstays.1, (hstays.2.2 9 (by decide)).trans rfl⟩

end Watched

end QjsDebug.Json
