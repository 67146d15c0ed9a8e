/-
# Sorted association lists

A map kept as a list of pairs in strictly increasing key order, which is what iterating a
`std::map` visits.  `insert` overwrites the value of a key already present and otherwise
puts the pair at its place; `find` and `erase` are by key.

The lists are plain data, so that a map can sit inside an inductive type that it is part
of; the order is the predicate `Sorted`, which every operation keeps.  The last section has
the fact a reader of a printed map needs: inserting the pairs of a sorted list one by one,
in order, into the empty map gives the list back (`ofList_eq_self`).
-/
import Std.Data.TreeMap.Basic

universe u v

namespace SortedMap

variable {κ : Type u} {α : Type v} [Ord κ]

/-- Keys strictly increase along the list. -/
def Sorted (m : List (κ × α)) : Prop := (m.map Prod.fst).Pairwise fun a b => compare a b = .lt

/-- `m[k] = v`. -/
def insert (k : κ) (v : α) : List (κ × α) → List (κ × α)
  | [] => [(k, v)]
  | (k', v') :: m =>
    match compare k k' with
    | .lt => (k, v) :: (k', v') :: m
    | .eq => (k, v) :: m
    | .gt => (k', v') :: insert k v m

/-- `m.find(k)`. -/
def find (k : κ) : List (κ × α) → Option α
  | [] => none
  | (k', v') :: m => if compare k k' = .eq then some v' else find k m

/-- `m.erase(k)`. -/
def erase (k : κ) (m : List (κ × α)) : List (κ × α) :=
  m.filter fun p => compare k p.1 != .eq

/-- The map built by assigning the pairs in order: the last value of a key wins. -/
def ofList (l : List (κ × α)) : List (κ × α) := l.foldl (fun m p => insert p.1 p.2 m) []

/-! ## Keys and order -/

theorem sorted_nil : Sorted ([] : List (κ × α)) := List.Pairwise.nil

theorem sorted_cons {k : κ} {v : α} {m : List (κ × α)} :
    Sorted ((k, v) :: m) ↔ (∀ p ∈ m, compare k p.1 = .lt) ∧ Sorted m := by
  simp [Sorted, List.pairwise_cons]

/-- A key of `insert k v m` is `k` or a key of `m`. -/
theorem mem_insert {k : κ} {v : α} {m : List (κ × α)} {p : κ × α} (hp : p ∈ insert k v m) :
    p = (k, v) ∨ p ∈ m := by
  induction m with
  | nil => simpa [insert] using hp
  | cons q m ih =>
    obtain ⟨k', v'⟩ := q
    unfold insert at hp
    split at hp
    · simpa using hp
    · rcases List.mem_cons.mp hp with rfl | hp
      · exact Or.inl rfl
      · exact Or.inr (List.mem_cons_of_mem _ hp)
    · rcases List.mem_cons.mp hp with rfl | hp
      · exact Or.inr List.mem_cons_self
      · exact (ih hp).imp id (List.mem_cons_of_mem _)

/-- Building a map invents no pair. -/
theorem mem_of_mem_ofList {l : List (κ × α)} {p : κ × α} (hp : p ∈ ofList l) : p ∈ l := by
  have hfold : ∀ (l m : List (κ × α)), p ∈ l.foldl (fun m q => insert q.1 q.2 m) m →
      p ∈ l ∨ p ∈ m := by
    intro l
    induction l with
    | nil => exact fun m h => .inr h
    | cons q l ih =>
      intro m h
      rcases ih _ h with h | h
      · exact .inl (List.mem_cons_of_mem q h)
      · rcases mem_insert h with rfl | h
        · exact .inl List.mem_cons_self
        · exact .inr h
  rcases hfold l [] hp with h | h
  · exact h
  · exact absurd h List.not_mem_nil

variable [Std.TransOrd κ] [Std.LawfulEqOrd κ]

theorem sorted_insert {k : κ} {v : α} {m : List (κ × α)} (h : Sorted m) :
    Sorted (insert k v m) := by
  induction m with
  | nil => simp [insert, Sorted]
  | cons q m ih =>
    obtain ⟨k', v'⟩ := q
    obtain ⟨hlt, hm⟩ := sorted_cons.mp h
    unfold insert
    split
    · rename_i hk
      refine sorted_cons.mpr ⟨?_, h⟩
      intro p hp
      rcases List.mem_cons.mp hp with rfl | hp
      · exact hk
      · exact Std.TransCmp.lt_trans hk (hlt p hp)
    · rename_i hk
      obtain rfl := Std.LawfulEqCmp.eq_of_compare hk
      exact sorted_cons.mpr ⟨hlt, hm⟩
    · rename_i hk
      refine sorted_cons.mpr ⟨?_, ih hm⟩
      intro p hp
      rcases mem_insert hp with rfl | hp
      · exact Std.OrientedCmp.lt_of_gt hk
      · exact hlt p hp

omit [Std.TransOrd κ] [Std.LawfulEqOrd κ] in
/-- The pair inserted is in the map. -/
theorem mem_insert_self (k : κ) (v : α) (m : List (κ × α)) : (k, v) ∈ insert k v m := by
  induction m with
  | nil => exact List.mem_cons_self
  | cons q m ih =>
    obtain ⟨k', v'⟩ := q
    unfold insert
    split
    · exact List.mem_cons_self
    · exact List.mem_cons_self
    · exact List.mem_cons_of_mem _ ih

omit [Std.TransOrd κ] in
/-- Inserting under another key keeps a pair. -/
theorem mem_insert_of_ne {k k₁ : κ} {v v₁ : α} {m : List (κ × α)} (hne : k₁ ≠ k)
    (h : (k₁, v₁) ∈ m) : (k₁, v₁) ∈ insert k v m := by
  induction m with
  | nil => cases h
  | cons q m ih =>
    obtain ⟨k', v'⟩ := q
    unfold insert
    split
    · exact List.mem_cons_of_mem _ h
    · rename_i hk
      obtain rfl := Std.LawfulEqCmp.eq_of_compare hk
      rcases List.mem_cons.mp h with h | h
      · cases h
        exact absurd rfl hne
      · exact List.mem_cons_of_mem _ h
    · rcases List.mem_cons.mp h with h | h
      · rw [h]
        exact List.mem_cons_self
      · exact List.mem_cons_of_mem _ (ih h)

omit [Std.TransOrd κ] in
/-- Erasing another key keeps a pair. -/
theorem mem_erase_of_ne {k k₁ : κ} {v₁ : α} {m : List (κ × α)} (hne : k ≠ k₁)
    (h : (k₁, v₁) ∈ m) : (k₁, v₁) ∈ erase k m := by
  refine List.mem_filter.mpr ⟨h, ?_⟩
  rw [bne_iff_ne]
  intro heq
  exact hne (Std.LawfulEqCmp.eq_of_compare heq)

omit [Std.TransOrd κ] in
/-- What was inserted is found under its key. -/
theorem find_insert_self (k : κ) (v : α) (m : List (κ × α)) :
    find k (insert k v m) = some v := by
  induction m with
  | nil => simp [insert, find]
  | cons q m ih =>
    obtain ⟨k', v'⟩ := q
    unfold insert
    split
    · simp [find]
    · simp [find]
    · rename_i hk
      rw [find, if_neg (by rw [hk]; exact Ordering.noConfusion)]
      exact ih

omit [Std.TransOrd κ] in
/-- Under another key nothing changes. -/
theorem find_insert_of_ne {k k₁ : κ} (v : α) (m : List (κ × α)) (hne : k₁ ≠ k) :
    find k₁ (insert k v m) = find k₁ m := by
  have hcmp : compare k₁ k ≠ .eq := fun h => hne (Std.LawfulEqCmp.eq_of_compare h)
  induction m with
  | nil => simp [insert, find, hcmp]
  | cons q m ih =>
    obtain ⟨k', v'⟩ := q
    unfold insert
    split
    · rw [find, if_neg hcmp]
    · rename_i hk
      obtain rfl := Std.LawfulEqCmp.eq_of_compare hk
      rw [find, find, if_neg hcmp, if_neg hcmp]
    · rw [find, find, ih]

omit [Std.TransOrd κ] in
/-- What is found is in the map. -/
theorem mem_of_find {k : κ} {v : α} {m : List (κ × α)} (h : find k m = some v) : (k, v) ∈ m := by
  induction m with
  | nil => exact absurd h (by simp [find])
  | cons q m ih =>
    obtain ⟨k', v'⟩ := q
    rw [find] at h
    split at h
    · rename_i hk
      obtain rfl := Std.LawfulEqCmp.eq_of_compare hk
      obtain rfl := Option.some.inj h
      exact List.mem_cons_self
    · exact List.mem_cons_of_mem _ (ih h)

omit [Std.TransOrd κ] in
/-- What is in the map has a value under its key. -/
theorem find_ne_none_of_mem {k : κ} {v : α} {m : List (κ × α)} (h : (k, v) ∈ m) :
    find k m ≠ none := by
  induction m with
  | nil => exact absurd h List.not_mem_nil
  | cons q m ih =>
    obtain ⟨k', v'⟩ := q
    rw [find]
    split
    · simp
    · rename_i hk
      rcases List.mem_cons.mp h with heq | h
      · obtain ⟨rfl, -⟩ := Prod.mk.inj heq
        exact absurd Std.ReflCmp.compare_self hk
      · exact ih h

/-! ## Rebuilding a map from its own pairs -/

omit [Std.LawfulEqOrd κ] in
/-- A key above every key of the map goes to the end. -/
theorem insert_of_forall_lt {k : κ} {v : α} {m : List (κ × α)}
    (h : ∀ p ∈ m, compare p.1 k = .lt) : insert k v m = m ++ [(k, v)] := by
  induction m with
  | nil => rfl
  | cons q m ih =>
    obtain ⟨k', v'⟩ := q
    have hgt : compare k k' = .gt := Std.OrientedCmp.gt_of_lt (h (k', v') List.mem_cons_self)
    simp only [insert, hgt, List.cons_append]
    rw [ih fun p hp => h p (List.mem_cons_of_mem _ hp)]

omit [Std.LawfulEqOrd κ] in
theorem foldl_insert_append {l m : List (κ × α)} (h : Sorted (m ++ l)) :
    l.foldl (fun m p => insert p.1 p.2 m) m = m ++ l := by
  induction l generalizing m with
  | nil => simp
  | cons p l ih =>
    have hp : ∀ q ∈ m, compare q.1 p.1 = .lt := by
      intro q hq
      simp only [Sorted, List.map_append, List.map_cons, List.pairwise_append] at h
      exact h.2.2 _ (List.mem_map_of_mem hq) _ List.mem_cons_self
    rw [List.foldl_cons, insert_of_forall_lt hp, ih (by simpa using h)]
    simp

omit [Std.LawfulEqOrd κ] in
/-- **A sorted list is the map its pairs build.** -/
theorem ofList_eq_self {m : List (κ × α)} (h : Sorted m) : ofList m = m := by
  simpa [ofList] using foldl_insert_append (m := []) (by simpa using h)

end SortedMap
