import Mathlib.Data.List.Nodup

/-- Association list without repeated keys, in insertion order. Writing a key
    that is present keeps its place, a new key goes to the end. -/
structure LinkedMap (α β : Type) where
  entries : List (α × β)
  nodup : (entries.map Prod.fst).Nodup

namespace LinkedMap

section Lists

variable {α β : Type} [DecidableEq α]

def find (key : α) : List (α × β) → Option β
  | [] => none
  | (k, v) :: rest => if k = key then some v else find key rest

def put (key : α) (value : β) : List (α × β) → List (α × β)
  | [] => [(key, value)]
  | (k, v) :: rest => if k = key then (key, value) :: rest else (k, v) :: put key value rest

theorem keys_put (key : α) (value : β) (entries : List (α × β)) :
    (put key value entries).map Prod.fst =
      if key ∈ entries.map Prod.fst then entries.map Prod.fst else entries.map Prod.fst ++ [key] := by
  induction entries with
  | nil => simp [put]
  | cons head rest ih =>
    obtain ⟨k, v⟩ := head
    by_cases same : k = key
    · simp [put, same]
    · simp only [put, same, if_false, List.map_cons, ih, List.mem_cons, Ne.symm same, false_or]
      split <;> simp

theorem find_put (key other : α) (value : β) (entries : List (α × β)) :
    find other (put key value entries) = if key = other then some value else find other entries := by
  induction entries with
  | nil => simp [put, find]
  | cons head rest ih =>
    obtain ⟨k, v⟩ := head
    by_cases same : k = key
    · subst same
      by_cases here : k = other <;> simp [put, find, here]
    · by_cases here : k = other
      · subst here
        simp [put, find, same, Ne.symm same]
      · simp [put, find, same, here, ih]

theorem find_filter (key other : α) (entries : List (α × β)) :
    find other (entries.filter (fun entry => entry.1 ≠ key)) =
      if key = other then none else find other entries := by
  induction entries with
  | nil => simp [find]
  | cons head rest ih =>
    obtain ⟨k, v⟩ := head
    by_cases same : k = key
    · subst same
      by_cases here : k = other
      · simpa [here] using ih
      · simpa [here, find] using ih
    · by_cases here : k = other
      · subst here
        simp [find, same, Ne.symm same]
      · simpa [find, same, here] using ih

theorem mem_of_find {key : α} {value : β} {entries : List (α × β)}
    (found : find key entries = some value) : (key, value) ∈ entries := by
  induction entries with
  | nil => simp [find] at found
  | cons head rest ih =>
    obtain ⟨k, v⟩ := head
    by_cases same : k = key
    · simp_all [find]
    · simp only [find, same, if_false] at found
      exact List.mem_cons_of_mem _ (ih found)

theorem find_of_mem {key : α} {value : β} {entries : List (α × β)}
    (nodup : (entries.map Prod.fst).Nodup) (member : (key, value) ∈ entries) :
    find key entries = some value := by
  induction entries with
  | nil => simp at member
  | cons head rest ih =>
    obtain ⟨k, v⟩ := head
    simp only [List.map_cons, List.nodup_cons] at nodup
    rcases List.mem_cons.mp member with here | later
    · simp_all [find]
    · have different : k ≠ key := by
        rintro rfl
        exact nodup.1 (List.mem_map_of_mem later)
      simpa [find, different] using ih nodup.2 later

theorem find_eq_none {key : α} {entries : List (α × β)} :
    find key entries = none ↔ key ∉ entries.map Prod.fst := by
  induction entries with
  | nil => simp [find]
  | cons head rest ih =>
    obtain ⟨k, v⟩ := head
    by_cases same : k = key
    · simp [find, same]
    · simp [find, same, Ne.symm same, ih]

theorem put_mem {key : α} {value : β} {entry : α × β} {entries : List (α × β)}
    (member : entry ∈ put key value entries) : entry = (key, value) ∨ entry ∈ entries := by
  induction entries with
  | nil => simpa [put] using member
  | cons head rest ih =>
    obtain ⟨k, v⟩ := head
    by_cases same : k = key
    · simp only [put, same, if_true, List.mem_cons] at member ⊢
      tauto
    · simp only [put, same, if_false, List.mem_cons] at member ⊢
      rcases member with here | later
      · exact .inr (.inl here)
      · have := ih later
        tauto

end Lists

variable {α β : Type} [DecidableEq α]

def empty : LinkedMap α β := ⟨[], by simp⟩

instance : EmptyCollection (LinkedMap α β) := ⟨empty⟩

def keys (m : LinkedMap α β) : List α := m.entries.map Prod.fst

def get? (m : LinkedMap α β) (key : α) : Option β := find key m.entries

def containsKey (m : LinkedMap α β) (key : α) : Bool := (m.get? key).isSome

def insert (m : LinkedMap α β) (key : α) (value : β) : LinkedMap α β where
  entries := put key value m.entries
  nodup := by
    rw [keys_put]
    split
    · exact m.nodup
    · rename_i absent
      exact List.Nodup.append m.nodup (by simp) (by simpa using absent)

def remove (m : LinkedMap α β) (key : α) : LinkedMap α β where
  entries := m.entries.filter (fun entry => entry.1 ≠ key)
  nodup := m.nodup.sublist (List.filter_sublist.map Prod.fst)

def addAll (m other : LinkedMap α β) : LinkedMap α β :=
  other.entries.foldl (fun acc entry => acc.insert entry.1 entry.2) m

def ofList (entries : List (α × β)) : LinkedMap α β :=
  entries.foldl (fun acc entry => acc.insert entry.1 entry.2) ∅

@[simp]
theorem get?_empty (key : α) : (∅ : LinkedMap α β).get? key = none := rfl

@[simp]
theorem get?_insert (m : LinkedMap α β) (key other : α) (value : β) :
    (m.insert key value).get? other = if key = other then some value else m.get? other :=
  find_put key other value m.entries

@[simp]
theorem get?_remove (m : LinkedMap α β) (key other : α) :
    (m.remove key).get? other = if key = other then none else m.get? other :=
  find_filter key other m.entries

theorem get?_eq_some {m : LinkedMap α β} {key : α} {value : β} :
    m.get? key = some value ↔ (key, value) ∈ m.entries :=
  ⟨mem_of_find, find_of_mem m.nodup⟩

theorem get?_eq_none {m : LinkedMap α β} {key : α} : m.get? key = none ↔ key ∉ m.keys :=
  find_eq_none

theorem mem_keys {m : LinkedMap α β} {key : α} : key ∈ m.keys ↔ ∃ value, m.get? key = some value := by
  rw [← Option.isSome_iff_exists, ← not_iff_not, ← get?_eq_none]
  simp

theorem get?_perm {m other : LinkedMap α β} (perm : m.entries.Perm other.entries) (key : α) :
    m.get? key = other.get? key := by
  apply Option.ext
  intro value
  rw [get?_eq_some, get?_eq_some]
  exact perm.mem_iff

theorem get?_foldl_insert (entries : List (α × β)) (nodup : (entries.map Prod.fst).Nodup)
    (m : LinkedMap α β) (key : α) :
    (entries.foldl (fun acc entry => acc.insert entry.1 entry.2) m).get? key =
      (find key entries).or (m.get? key) := by
  induction entries generalizing m with
  | nil => simp [find]
  | cons head rest ih =>
    obtain ⟨k, v⟩ := head
    simp only [List.map_cons, List.nodup_cons] at nodup
    rw [List.foldl_cons, ih nodup.2, get?_insert]
    by_cases same : k = key
    · subst same
      simp [find, find_eq_none.mpr nodup.1]
    · simp [find, same]

theorem get?_addAll (m other : LinkedMap α β) (key : α) :
    (m.addAll other).get? key = (other.get? key).or (m.get? key) :=
  get?_foldl_insert other.entries other.nodup m key

theorem mem_foldl_insert (entries : List (α × β)) (m : LinkedMap α β) (entry : α × β)
    (member : entry ∈ (entries.foldl (fun acc entry => acc.insert entry.1 entry.2) m).entries) :
    entry ∈ entries ∨ entry ∈ m.entries := by
  induction entries generalizing m with
  | nil => exact .inr member
  | cons head rest ih =>
    rcases ih (m.insert head.1 head.2) member with later | earlier
    · exact .inl (List.mem_cons_of_mem _ later)
    · rcases put_mem earlier with here | old
      · exact .inl (by simp [here])
      · exact .inr old

theorem foldl_insert_isSome (entries : List (α × β)) (m : LinkedMap α β) (key : α)
    (present : key ∈ entries.map Prod.fst ∨ (m.get? key).isSome) :
    ((entries.foldl (fun acc entry => acc.insert entry.1 entry.2) m).get? key).isSome := by
  induction entries generalizing m with
  | nil => simpa using present
  | cons head rest ih =>
    refine ih (m.insert head.1 head.2) ?_
    rw [get?_insert]
    by_cases same : head.1 = key
    · exact .inr (by simp [same])
    · simpa [same, Ne.symm same] using present

theorem ofList_isSome {entries : List (α × β)} {key : α} (present : key ∈ entries.map Prod.fst) :
    ((ofList entries).get? key).isSome := foldl_insert_isSome entries ∅ key (.inl present)

theorem mem_ofList {entries : List (α × β)} {key : α} {value : β}
    (found : (ofList entries).get? key = some value) : (key, value) ∈ entries := by
  rcases mem_foldl_insert entries ∅ _ (get?_eq_some.mp found) with member | member
  · exact member
  · cases member

end LinkedMap
