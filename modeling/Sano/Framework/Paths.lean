import Sano.Base.FileTree

namespace Sano.Framework

open FileTree

section Paths

def isAbsolute (text : String) : Bool := text.toList.head? = some '/'

def endsWithSeparator (text : String) : Bool := text.toList.getLast? = some '/'

def join (first second : String) : String :=
  if isAbsolute second then second
  else if second = "" then first
  else if first = "" ∨ endsWithSeparator first then first ++ second
  else first ++ "/" ++ second

def components (text : String) : List String :=
  ((text.toList.splitOn '/').filter (· ≠ [])).map String.ofList

def toSegment (component : String) : Segment String :=
  if component = "." then .here else if component = ".." then .up else .name component

def toPath (text : String) : Path String := ⟨isAbsolute text, (components text).map toSegment⟩

theorem filter_splitOn_append (first second : List Char) :
    ((first ++ '/' :: second).splitOn '/').filter (· ≠ []) =
      (first.splitOn '/').filter (· ≠ []) ++ (second.splitOn '/').filter (· ≠ []) := by
  rw [List.splitOn_append_cons_self, List.filter_append]

theorem components_append (first second : String) :
    components (first ++ "/" ++ second) = components first ++ components second := by
  have text : (first ++ "/" ++ second).toList = first.toList ++ '/' :: second.toList := by simp
  rw [components, text, filter_splitOn_append, List.map_append]
  rfl

theorem components_separator (second : String) : components ("/" ++ second) = components second := by
  simpa [components] using components_append "" second

theorem components_join {first second : String} (named : first ≠ "") (relative : isAbsolute second = false)
    (nonempty : second ≠ "") : components (join first second) = components first ++ components second := by
  simp only [join, relative, Bool.false_eq_true, if_false, nonempty, named, false_or]
  split
  next closed =>
    have ending : first.toList.getLast? = some '/' := of_decide_eq_true closed
    obtain ⟨before, split⟩ := List.getLast?_eq_some_iff.mp ending
    have text : (first ++ second).toList = before ++ '/' :: second.toList := by simp [split]
    rw [components, text, filter_splitOn_append, List.map_append, components, split, filter_splitOn_append]
    simp [components]
  next => exact components_append first second

theorem isAbsolute_append {first : String} (named : first ≠ "") (second : String) :
    isAbsolute (first ++ second) = isAbsolute first := by
  have chars : first.toList ≠ [] := by simpa using named
  obtain ⟨head, tail, split⟩ := List.exists_cons_of_ne_nil chars
  simp [isAbsolute, split]

theorem isAbsolute_join {first second : String} (named : first ≠ "") (relative : isAbsolute second = false) :
    isAbsolute (join first second) = isAbsolute first := by
  simp only [join, relative, Bool.false_eq_true, if_false]
  split
  · rfl
  · split
    · exact isAbsolute_append named second
    · rw [String.append_assoc]
      exact isAbsolute_append named _

theorem toPath_join {first second : String} (named : first ≠ "") (relative : isAbsolute second = false)
    (nonempty : second ≠ "") :
    toPath (join first second) = ⟨isAbsolute first, (toPath first).segments ++ (toPath second).segments⟩ := by
  simp [toPath, isAbsolute_join named relative, components_join named relative nonempty]

theorem endsWithSeparator_append (first : String) {second : String} (nonempty : second ≠ "") :
    endsWithSeparator (first ++ second) = endsWithSeparator second := by
  have chars : second.toList ≠ [] := by simpa using nonempty
  simp [endsWithSeparator, List.getLast?_append_of_ne_nil _ chars]

theorem endsWithSeparator_join (first : String) {second : String} (nonempty : second ≠ "") :
    endsWithSeparator (join first second) = endsWithSeparator second := by
  simp only [join, nonempty, if_false]
  split
  · rfl
  · split
    · exact endsWithSeparator_append first nonempty
    · exact endsWithSeparator_append (first ++ "/") nonempty

theorem join_ne_empty {first second : String} (named : first ≠ "") : join first second ≠ "" := by
  unfold join
  split
  next absolute =>
    rintro rfl
    simp [isAbsolute] at absolute
  next =>
    split
    · exact named
    · split <;> simp [named]

theorem components_ne_nil {text : String} (relative : isAbsolute text = false) (nonempty : text ≠ "") :
    components text ≠ [] := by
  have chars : text.toList ≠ [] := by simpa using nonempty
  obtain ⟨head, tail, split⟩ := List.exists_cons_of_ne_nil chars
  have other : head ≠ '/' := by simpa [isAbsolute, split] using relative
  obtain ⟨first, others, parts⟩ := List.exists_cons_of_ne_nil (List.splitOn_ne_nil '/' tail)
  simp [components, split, List.splitOn_cons_eq_if_modifyHead, other, parts]

end Paths

end Sano.Framework
