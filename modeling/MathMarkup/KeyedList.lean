/-!
# Keyed lists

Values under text keys, in the order in which the keys were first set.  Setting a key again
replaces its value where it stands.  The symbol tables, the color tables and the attributes of an
element are keyed lists.

* `value?_set` says what a lookup finds after a key was set, and `value?_foldl_set` what it finds
  after several were.
* `keys_set` says that setting a key adds it at the end, or leaves the keys alone.
* `mem_of_value?` and `exists_value?` tie what a lookup finds to the entries and the keys.
-/

namespace MathMarkup

/-- Values under text keys, in the order in which the keys were first set. -/
abbrev KeyedList (α : Type) := List (String × α)

namespace KeyedList

variable {α : Type}

/-- The value under a key. -/
def value? : KeyedList α → String → Option α
  | [], _ => none
  | (k, v) :: m, key => if k = key then some v else value? m key

/-- The keys in order. -/
def keys (m : KeyedList α) : List String :=
  m.map Prod.fst

/-- Sets the value under a key: in its old place if the key is there, else at the end. -/
def set : KeyedList α → String → α → KeyedList α
  | [], key, value => [(key, value)]
  | (k, v) :: m, key, value =>
    if k = key then (key, value) :: m else (k, v) :: set m key value

/-- The keyed list that results from setting the given pairs in order. -/
def ofPairs (pairs : List (String × α)) : KeyedList α :=
  pairs.foldl (fun m p => set m p.1 p.2) []

/-- After a key was set, it has the new value and every other key has its old one. -/
theorem value?_set (m : KeyedList α) (key k : String) (value : α) :
    value? (set m key value) k = if k = key then some value else value? m k := by
  induction m with
  | nil => simp [set, value?, eq_comm]
  | cons p m ih =>
    obtain ⟨k', v'⟩ := p
    by_cases hk : k' = key
    · subst hk
      by_cases h : k' = k
      · simp [set, value?, h]
      · have h' : k ≠ k' := fun e => h e.symm
        simp [set, value?, h, h']
    · by_cases h : k' = k
      · subst h
        simp [set, value?, hk]
      · simp [set, value?, hk, h, ih]

theorem value?_append (a b : KeyedList α) (key : String) :
    value? (a ++ b) key = (value? a key).or (value? b key) := by
  induction a with
  | nil => rfl
  | cons p a ih =>
    obtain ⟨k, v⟩ := p
    rw [List.cons_append, value?, value?]
    split
    · rfl
    · exact ih

/-- After pairs were set in order, a key has the value of its last pair, or else its old one. -/
theorem value?_foldl_set (m pairs : KeyedList α) (key : String) :
    value? (pairs.foldl (fun m p => m.set p.1 p.2) m) key =
      (value? pairs.reverse key).or (value? m key) := by
  induction pairs generalizing m with
  | nil => rfl
  | cons p pairs ih =>
    obtain ⟨k, v⟩ := p
    rw [List.foldl_cons, ih, List.reverse_cons, value?_append, Option.or_assoc, value?_set]
    by_cases hkey : k = key
    · simp [value?, hkey]
    · simp [value?, hkey, Ne.symm hkey]

/-- Setting a key leaves the keys alone if it is there, and else adds it at the end. -/
theorem keys_set (m : KeyedList α) (key : String) (value : α) :
    keys (set m key value) = if key ∈ keys m then keys m else keys m ++ [key] := by
  induction m with
  | nil => simp [set, keys]
  | cons p m ih =>
    obtain ⟨k', v'⟩ := p
    simp only [keys] at ih
    by_cases hk : k' = key
    · subst hk
      simp [set, keys]
    · have hk' : key ≠ k' := fun h => hk h.symm
      by_cases hm : key ∈ m.map Prod.fst <;> simp_all [set, keys]

/-- A key that is not there is set at the end. -/
theorem set_of_notMem {m : KeyedList α} {key : String} (h : key ∉ m.keys) (value : α) :
    m.set key value = m ++ [(key, value)] := by
  induction m with
  | nil => rfl
  | cons p m ih =>
    have hne : p.1 ≠ key := fun heq => h (heq ▸ List.mem_cons_self)
    have hmem : key ∉ keys m := fun hm => h (List.mem_cons_of_mem p.1 hm)
    rw [set, if_neg hne, ih hmem, List.cons_append]

theorem mem_set {m : KeyedList α} {key : String} {value : α} {p : String × α}
    (h : p ∈ m.set key value) : p = (key, value) ∨ p ∈ m := by
  induction m with
  | nil => exact .inl (List.mem_singleton.mp h)
  | cons q m ih =>
    unfold set at h
    split at h
    · rcases List.mem_cons.mp h with rfl | hmem
      · exact .inl rfl
      · exact .inr (List.mem_cons_of_mem q hmem)
    · rcases List.mem_cons.mp h with rfl | hmem
      · exact .inr List.mem_cons_self
      · exact (ih hmem).imp_right (List.mem_cons_of_mem q)

/-- What a lookup finds is an entry. -/
theorem mem_of_value? {m : KeyedList α} {key : String} {value : α}
    (h : m.value? key = some value) : (key, value) ∈ m := by
  induction m with
  | nil => exact nomatch h
  | cons p m ih =>
    unfold value? at h
    split at h
    · rename_i hkey
      cases h
      exact hkey ▸ List.mem_cons_self
    · exact List.mem_cons_of_mem p (ih h)

theorem mem_keys_of_value? {m : KeyedList α} {key : String} {value : α}
    (h : m.value? key = some value) : key ∈ m.keys :=
  List.mem_map_of_mem (f := Prod.fst) (mem_of_value? h)

/-- A lookup finds every key. -/
theorem exists_value? {m : KeyedList α} {key : String} (h : key ∈ m.keys) :
    ∃ value, m.value? key = some value := by
  induction m with
  | nil => exact nomatch h
  | cons p m ih =>
    unfold value?
    split
    · exact ⟨_, rfl⟩
    · rename_i hne
      rcases List.mem_cons.mp h with heq | hmem
      · exact absurd heq.symm hne
      · exact ih hmem

theorem value?_eq_none_iff {m : KeyedList α} {key : String} :
    m.value? key = none ↔ key ∉ m.keys := by
  constructor
  · intro hnone hkey
    obtain ⟨value, hvalue⟩ := exists_value? hkey
    rw [hnone] at hvalue
    cases hvalue
  · intro hkey
    cases hvalue : m.value? key with
    | none => rfl
    | some value => exact absurd (mem_keys_of_value? hvalue) hkey

end KeyedList

end MathMarkup
