import Sano.Base.LinkedMap

namespace Sano.Render

/-- What `jsonDecode` returns. A double is kept as its bit pattern: no code of
    the render layer computes with it. -/
inductive Json where
  | null
  | bool (value : Bool)
  | int (value : Int)
  | double (bits : BitVec 64)
  | string (value : String)
  | list (items : List Json)
  | map (members : List (String × Json))

abbrev Object := LinkedMap String Json

mutual

def Json.depth : Json → Nat
  | .list items => itemsDepth items + 1
  | .map members => membersDepth members + 1
  | _ => 0

def itemsDepth : List Json → Nat
  | [] => 0
  | item :: rest => max item.depth (itemsDepth rest)

def membersDepth : List (String × Json) → Nat
  | [] => 0
  | (_, value) :: rest => max value.depth (membersDepth rest)

end

def Object.depth (object : Object) : Nat := membersDepth object.entries

-- The casts of the source: `none` where `as` throws, and for the nullable
-- types `some none` where the value is null.

def Json.asString : Json → Option String
  | .string value => some value
  | _ => none

def Json.asMap : Json → Option Object
  | .map members => some (LinkedMap.ofList members)
  | _ => none

def Json.asList : Json → Option (List Json)
  | .list items => some items
  | _ => none

def Json.asMapOrNull : Json → Option (Option Object)
  | .null => some none
  | value => value.asMap.map some

def Json.asListOrNull : Json → Option (Option (List Json))
  | .null => some none
  | value => value.asList.map some

def Json.asStringsOrNull (value : Json) : Option (Option (List String)) :=
  match value.asListOrNull with
  | none => none
  | some none => some none
  | some (some items) => (items.mapM Json.asString).map some

def Object.field (object : Object) (key : String) : Json := (object.get? key).getD .null

theorem depth_le_itemsDepth {item : Json} {items : List Json} (member : item ∈ items) :
    item.depth ≤ itemsDepth items := by
  induction items with
  | nil => simp at member
  | cons head rest ih =>
    rw [itemsDepth]
    rcases List.mem_cons.mp member with rfl | later
    · exact Nat.le_max_left _ _
    · exact Nat.le_trans (ih later) (Nat.le_max_right _ _)

theorem depth_le_membersDepth {key : String} {value : Json} {members : List (String × Json)}
    (member : (key, value) ∈ members) : value.depth ≤ membersDepth members := by
  induction members with
  | nil => simp at member
  | cons head rest ih =>
    obtain ⟨k, v⟩ := head
    rw [membersDepth]
    rcases List.mem_cons.mp member with here | later
    · cases here
      exact Nat.le_max_left _ _
    · exact Nat.le_trans (ih later) (Nat.le_max_right _ _)

theorem membersDepth_le {members : List (String × Json)} {bound : Nat}
    (small : ∀ key value, (key, value) ∈ members → value.depth ≤ bound) :
    membersDepth members ≤ bound := by
  induction members with
  | nil => simp [membersDepth]
  | cons head rest ih =>
    obtain ⟨k, v⟩ := head
    rw [membersDepth]
    exact Nat.max_le.mpr ⟨small k v (by simp), ih fun key value member => small key value (by simp [member])⟩

theorem asMap_depth {value : Json} {object : Object} (cast : value.asMap = some object) :
    object.depth < value.depth := by
  cases value <;> simp only [Json.asMap, Option.some.injEq, reduceCtorEq] at cast
  rename_i members
  subst cast
  rw [Json.depth]
  apply Nat.lt_succ_of_le
  apply membersDepth_le
  intro key value member
  exact depth_le_membersDepth (LinkedMap.mem_ofList (LinkedMap.get?_eq_some.mpr member))

theorem field_depth (object : Object) (key : String) : (object.field key).depth ≤ object.depth := by
  unfold Object.field
  cases found : object.get? key with
  | none => simp [Json.depth]
  | some value => exact depth_le_membersDepth (LinkedMap.get?_eq_some.mp found)

theorem asList_of_asListOrNull {value : Json} {items : List Json}
    (cast : value.asListOrNull = some (some items)) : value = .list items := by
  cases value <;> simp_all [Json.asListOrNull, Json.asList]

/-- An item of a list field is strictly below the object that holds the field. -/
theorem item_depth {object below : Object} {key : String} {items : List Json} {item : Json}
    (held : object.field key = .list items) (member : item ∈ items)
    (cast : item.asMap = some below) : below.depth < object.depth := by
  have first := field_depth object key
  have second := depth_le_itemsDepth member
  have third := asMap_depth cast
  rw [held, Json.depth] at first
  omega

end Sano.Render
