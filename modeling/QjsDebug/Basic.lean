/-
# Byte strings, exceptions and the host

The debugger is C++: its strings are byte strings, its library calls may throw, and a few of
its functions depend on the platform it was built for.  This module fixes those three
things.

* A `std::string` is a list of bytes (`Bytes`).  `ascii` writes the literals of the source.
* `Exn` names the two exceptions the library calls in scope can throw.
* `Host` collects what the code takes from outside the repository without looking inside:
  the platform switch `_WIN32`, and `std::regex`, of which only the outcome of a search
  matters (found, not found, or an exception from construction or search).
-/
import Mathlib.Data.List.Infix

namespace QjsDebug

/-- A `std::string`. -/
abbrev Bytes := List UInt8

/-- A string literal of the source, all of which are ASCII. -/
def ascii (s : String) : Bytes := s.toList.map fun c => UInt8.ofNat c.toNat

/-- The byte of an ASCII character literal. -/
def byte (c : Char) : UInt8 := UInt8.ofNat c.toNat

/-- The standard exceptions thrown by the conversions and by `substr`/`compare`. -/
inductive Exn
  | invalidArgument
  | outOfRange
  deriving DecidableEq, Repr

/-- What the code takes from its build and from the C++ library as it is. -/
structure Host where
  /-- `_WIN32` is defined. -/
  windows : Bool
  /-- `std::regex(pattern, ECMAScript | icase)` followed by `regex_search(text, ·)`:
  `none` when either of them throws. -/
  regexSearch : Bytes → Bytes → Option Bool

/-- A POSIX build whose regex engine rejects every pattern: the host of the examples, none
of which has a regex breakpoint. -/
def posixHost : Host where
  windows := false
  regexSearch := fun _ _ => none

/-! ## Searching in byte strings -/

/-- `s.find(t) != npos`. -/
def contains (s t : Bytes) : Bool := decide (t <:+: s)

/-- `tolower` of the C locale. -/
def tolower (c : UInt8) : UInt8 := if 0x41 ≤ c ∧ c ≤ 0x5A then c + 0x20 else c

/-- The part after the last `/`, the whole string when there is none: the `rfind`/`substr`
pair that several functions repeat. -/
def baseName (s : Bytes) : Bytes := (s.reverse.takeWhile fun c => c != byte '/').reverse

end QjsDebug
