/-!
# Dictionaries in insertion order

A dictionary maps texts to values and keeps the order in which keys first came in. Inserting under
a key that is there replaces the value and keeps the key's place: `get?_insert` and `keys_insert`.
-/

namespace IonLang

/-- A map from texts that remembers the order of its keys. -/
structure Dictionary (α : Type) where
  entries : List (String × α) := []
  deriving DecidableEq, Repr

namespace Dictionary

variable {α : Type}

instance : Inhabited (Dictionary α) := ⟨{}⟩

/-- Replaces the value at the first entry with the key, or adds an entry at the end. -/
def put (key : String) (value : α) : List (String × α) → List (String × α)
  | [] => [(key, value)]
  | entry :: rest =>
    if entry.1 = key then (key, value) :: rest else entry :: put key value rest

def insert (dict : Dictionary α) (key : String) (value : α) : Dictionary α :=
  ⟨put key value dict.entries⟩

def get? (dict : Dictionary α) (key : String) : Option α :=
  dict.entries.lookup key

def contains (dict : Dictionary α) (key : String) : Bool :=
  (dict.get? key).isSome

def keys (dict : Dictionary α) : List String := dict.entries.map Prod.fst

def size (dict : Dictionary α) : Nat := dict.entries.length

/-- Inserts the pairs in order, so that of several values for one key the last counts. -/
def ofList (pairs : List (String × α)) : Dictionary α :=
  pairs.foldl (fun dict pair => dict.insert pair.1 pair.2) {}

theorem lookup_put (key other : String) (value : α) (entries : List (String × α)) :
    (put key value entries).lookup other =
      if other = key then some value else entries.lookup other := by
  induction entries with
  | nil =>
    by_cases same : other = key
    · simp [put, same]
    · simp [put, List.lookup_cons, beq_false_of_ne same, same]
  | cons entry rest ih =>
    obtain ⟨first, held⟩ := entry
    by_cases found : first = key
    · subst found
      by_cases same : other = first
      · simp [put, same]
      · simp [put, List.lookup_cons, beq_false_of_ne same, same]
    · by_cases here : other = first
      · subst here
        simp [put, found]
      · simp [put, found, List.lookup_cons, beq_false_of_ne here, ih]

/-- After an insertion the key has the new value, and all other keys have theirs. -/
theorem get?_insert (dict : Dictionary α) (key other : String) (value : α) :
    (dict.insert key value).get? other = if other = key then some value else dict.get? other :=
  lookup_put key other value dict.entries

theorem put_put (key : String) (value other : α) (entries : List (String × α)) :
    put key other (put key value entries) = put key other entries := by
  induction entries with
  | nil => simp [put]
  | cons entry rest ih =>
    by_cases found : entry.1 = key
    · simp [put, found]
    · simp [put, found, ih]

theorem insert_insert (dict : Dictionary α) (key : String) (value other : α) :
    (dict.insert key value).insert key other = dict.insert key other :=
  congrArg mk (put_put key value other dict.entries)

theorem map_fst_put (key : String) (value : α) (entries : List (String × α)) :
    (put key value entries).map Prod.fst =
      if key ∈ entries.map Prod.fst then entries.map Prod.fst
      else entries.map Prod.fst ++ [key] := by
  induction entries with
  | nil => simp [put]
  | cons entry rest ih =>
    rw [put]
    split
    · next found => simp [found]
    · next different =>
      have apart : key ≠ entry.1 := Ne.symm different
      simp only [List.map_cons, ih, List.mem_cons, apart, false_or]
      split <;> simp

theorem put_of_not_mem {key : String} {entries : List (String × α)}
    (new : key ∉ entries.map Prod.fst) (value : α) :
    put key value entries = entries ++ [(key, value)] := by
  induction entries with
  | nil => rfl
  | cons entry rest ih =>
    rw [List.map_cons, List.mem_cons, not_or] at new
    rw [put, if_neg (Ne.symm new.1), ih new.2, List.cons_append]

/-- A new key goes to the end, and a known key keeps its place. -/
theorem keys_insert (dict : Dictionary α) (key : String) (value : α) :
    (dict.insert key value).keys = if key ∈ dict.keys then dict.keys else dict.keys ++ [key] :=
  map_fst_put key value dict.entries

theorem lookup_map_find? {β : Type} (key : β → String) (value : β → α) (items : List β)
    (name : String) :
    (items.map fun item => (key item, value item)).lookup name =
      (items.find? fun item => key item == name).map value := by
  induction items with
  | nil => rfl
  | cons item rest ih =>
    rw [List.map_cons, List.lookup_cons, List.find?_cons, ih, BEq.comm]
    cases key item == name with
    | true => rfl
    | false => rfl

end Dictionary

end IonLang
