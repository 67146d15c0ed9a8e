/-
# `json::Value`

The tree type of `json.h`.  A `json::Value` carries a type tag and one field per type; the
fields of the other types keep their defaults in every value the code builds, so a tagged
union says the same.  The getters return the default when the tag is another one, as the
C++ getters do.

Numbers are C++ doubles.  `Double` keeps a finite one as the rational it denotes, which is
all the code can see of it: nothing here looks at the sign of a zero.  An object is a
`std::map<std::string, Value>`, kept as its list of pairs in key order (`Lib/SortedMap`);
`WF` says that every object of the tree really is in order.
-/
import Mathlib.Algebra.Group.Int.Defs
import Mathlib.Data.Rat.Defs
import Mathlib.Data.List.Infix
import QjsDebug.Basic
import QjsDebug.Lib.SortedMap

namespace QjsDebug.Json

/-- A C++ `double`. -/
inductive Double
  | finite (q : ℚ)
  | infinite (negative : Bool)
  | nan
  deriving DecidableEq

/-- `json::Value`. -/
inductive Value
  | null
  | bool (b : Bool)
  | number (d : Double)
  | string (s : Bytes)
  | array (xs : List Value)
  | object (kvs : List (Bytes × Value))

namespace Value

/-- `Value(int)` and `Value(int64_t)`. -/
def ofInt (n : Int) : Value := .number (.finite n)

/-- `Value(const char*)` of a literal of the source. -/
def lit (s : String) : Value := .string (ascii s)

def isObject : Value → Bool
  | .object _ => true
  | _ => false

/-- `get_string()`. -/
def getString : Value → Bytes
  | .string s => s
  | _ => []

/-- `get_bool()`. -/
def getBool : Value → Bool
  | .bool b => b
  | _ => false

/-- `get_number()`. -/
def getNumber : Value → Double
  | .number d => d
  | _ => .finite 0

/-- `get_int()`: truncation towards zero.  Where the result does not fit an `int`, and for
infinities and NaN, the C++ cast is undefined; the value here is what the conversion
instruction of x86-64 leaves. -/
def getInt (v : Value) : Int :=
  match v.getNumber with
  | .finite q =>
    let n := q.num.tdiv q.den
    if -2 ^ 31 ≤ n ∧ n < 2 ^ 31 then n else -2 ^ 31
  | _ => -2 ^ 31

/-- `has(key)`. -/
def has (v : Value) (key : Bytes) : Bool :=
  match v with
  | .object kvs => (SortedMap.find key kvs).isSome
  | _ => false

/-- `v[key]` on a const value: the shared null when there is no such member. -/
def index (v : Value) (key : Bytes) : Value :=
  match v with
  | .object kvs => (SortedMap.find key kvs).getD .null
  | _ => .null

/-- `set(key, val)`: a value that is no object becomes one first. -/
def set (v : Value) (key : Bytes) (val : Value) : Value :=
  match v with
  | .object kvs => .object (SortedMap.insert key val kvs)
  | _ => .object [(key, val)]

/-- `push(val)`: a value that is no array becomes one first. -/
def push (v : Value) (val : Value) : Value :=
  match v with
  | .array xs => .array (xs ++ [val])
  | _ => .array [val]

/-- `object()` followed by `set` for each field, with the literals of the source as keys. -/
def ofFields (fields : List (String × Value)) : Value :=
  fields.foldl (fun v f => v.set (ascii f.1) f.2) (.object [])

/-! ## Fields -/

theorem index_set_self (v : Value) (key : Bytes) (val : Value) :
    (v.set key val).index key = val := by
  have hone : (Value.object [(key, val)]).index key = val := by
    simp [index, SortedMap.find]
  cases v with
  | object kvs => simp [set, index, SortedMap.find_insert_self]
  | _ => exact hone

theorem index_set_of_ne (v : Value) {key key' : Bytes} (val : Value) (hne : key' ≠ key) :
    (v.set key val).index key' = v.index key' := by
  have hone : (Value.object [(key, val)]).index key' = .null := by
    simp [index, SortedMap.find, hne]
  cases v with
  | object kvs => simp [set, index, SortedMap.find_insert_of_ne _ _ hne]
  | _ => exact hone

theorem has_set_self (v : Value) (key : Bytes) (val : Value) : (v.set key val).has key = true := by
  have hone : (Value.object [(key, val)]).has key = true := by simp [has, SortedMap.find]
  cases v with
  | object kvs => simp [set, has, SortedMap.find_insert_self]
  | _ => exact hone

theorem has_set_of_ne (v : Value) {key key' : Bytes} (val : Value) (hne : key' ≠ key) :
    (v.set key val).has key' = v.has key' := by
  have hone : (Value.object [(key, val)]).has key' = false := by
    simp [has, SortedMap.find, hne]
  cases v with
  | object kvs => simp [set, has, SortedMap.find_insert_of_ne _ _ hne]
  | _ => exact hone

theorem isObject_set (v : Value) (key : Bytes) (val : Value) : (v.set key val).isObject = true := by
  cases v <;> rfl

theorem isObject_ofFields (fields : List (String × Value)) :
    (Value.ofFields fields).isObject = true := by
  have hfold : ∀ v : Value, v.isObject = true →
      (fields.foldl (fun v f => v.set (ascii f.1) f.2) v).isObject = true := by
    induction fields with
    | nil => exact fun v hv => hv
    | cons f fields ih => exact fun v _ => ih _ (isObject_set v (ascii f.1) f.2)
  exact hfold _ rfl

/-- An `int` that is put into a value comes back. -/
theorem getInt_ofInt {n : Int} (hlo : -2 ^ 31 ≤ n) (hhi : n < 2 ^ 31) : (ofInt n).getInt = n := by
  simp only [getInt, getNumber, ofInt, Rat.num_intCast, Rat.den_intCast, Int.ofNat_one,
    Int.tdiv_one, if_pos (And.intro hlo hhi)]

/-! ## Well-formed trees

Every `std::map` in the tree is in key order.  This is no assumption about the data: it is
what the C++ type guarantees and the list does not. -/

mutual
/-- Every object of the tree has its keys in order, without repetition. -/
def WF : Value → Prop
  | .array xs => WFs xs
  | .object kvs => SortedMap.Sorted kvs ∧ WFm kvs
  | _ => True
def WFs : List Value → Prop
  | [] => True
  | v :: vs => WF v ∧ WFs vs
def WFm : List (Bytes × Value) → Prop
  | [] => True
  | (_, v) :: kvs => WF v ∧ WFm kvs
end

theorem wfm_iff {kvs : List (Bytes × Value)} : WFm kvs ↔ ∀ p ∈ kvs, WF p.2 := by
  induction kvs with
  | nil => simp [WFm]
  | cons p kvs ih => obtain ⟨k, v⟩ := p; simp [WFm, ih]

theorem wfs_iff {xs : List Value} : WFs xs ↔ ∀ v ∈ xs, WF v := by
  induction xs with
  | nil => simp [WFs]
  | cons v xs ih => simp [WFs, ih]

/-- `set` keeps a tree well formed. -/
theorem WF.set {v val : Value} {key : Bytes} (h : v.WF) (hv : val.WF) : (v.set key val).WF := by
  have hone : (Value.object [(key, val)]).WF := by simp [WF, WFm, SortedMap.Sorted, hv]
  cases v with
  | object kvs =>
    simp only [WF, Value.set] at h ⊢
    refine ⟨SortedMap.sorted_insert h.1, wfm_iff.mpr fun p hp => ?_⟩
    rcases SortedMap.mem_insert hp with rfl | hp
    · exact hv
    · exact wfm_iff.mp h.2 p hp
  | _ => exact hone

/-- `push` keeps a tree well formed. -/
theorem WF.push {v val : Value} (h : v.WF) (hv : val.WF) : (v.push val).WF := by
  cases v with
  | array xs =>
    simp only [WF, Value.push] at h ⊢
    refine wfs_iff.mpr fun w hw => ?_
    rcases List.mem_append.mp hw with hw | hw
    · exact wfs_iff.mp h w hw
    · exact List.mem_singleton.mp hw ▸ hv
  | _ => simp [Value.push, WF, WFs, hv]

end Value

end QjsDebug.Json
