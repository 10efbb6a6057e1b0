import Sano.Base.LinkedMap
import Sano.Base.Run

namespace Sano.Framework

section Model

variable {η : Type}

def beginsWith (item start : String) : Bool := start.toList.isPrefixOf item.toList

def channelName (name : String) : String := "sano:channel:" ++ name ++ ":"

def getMethod (name method : String) : String := channelName name ++ method

def dispose (name : String) (listeners : LinkedMap String η) : LinkedMap String η :=
  listeners.keys.foldl (fun rest item => if beginsWith item (channelName name) then rest.remove item else rest) listeners

theorem foldl_remove_get (drops : String → Bool) (items : List String) (listeners : LinkedMap String η) (key : String) :
    (items.foldl (fun rest item => if drops item then rest.remove item else rest) listeners).get? key =
      if key ∈ items ∧ drops key = true then none else listeners.get? key := by
  induction items generalizing listeners with
  | nil => simp
  | cons item items ih =>
    rw [List.foldl_cons, ih]
    by_cases same : item = key
    · subst same
      by_cases dropped : drops item = true
      · simp [dropped]
      · simp [dropped]
    · by_cases dropped : drops item = true
      · simp [dropped, same, Ne.symm same]
      · simp [dropped, Ne.symm same]

theorem dispose_get (name : String) (listeners : LinkedMap String η) (key : String) :
    (dispose name listeners).get? key = if beginsWith key (channelName name) then none else listeners.get? key := by
  rw [dispose, foldl_remove_get (fun item => beginsWith item (channelName name))]
  by_cases listed : key ∈ listeners.keys
  · simp [listed]
  · simp [listed, LinkedMap.get?_eq_none.mpr listed]

end Model

section Isolation

variable {η : Type}

inductive Operation (η : Type) where
  | on (method : String) (handle : η)
  | once (method : String) (wrapper : η)
  | dispose

def operate (name : String) (listeners : LinkedMap String η) : Operation η → LinkedMap String η
  | .on method handle => listeners.insert (getMethod name method) handle
  | .once method wrapper => listeners.insert (getMethod name method) wrapper
  | .dispose => dispose name listeners

def Overlap (a b : String) : Prop :=
  (a ++ ":").toList <+: (b ++ ":").toList ∨ (b ++ ":").toList <+: (a ++ ":").toList

theorem channelName_toList (name : String) :
    (channelName name).toList = "sano:channel:".toList ++ (name ++ ":").toList := by
  simp [channelName]

theorem getMethod_toList (name method : String) :
    (getMethod name method).toList = "sano:channel:".toList ++ ((name ++ ":").toList ++ method.toList) := by
  rw [getMethod, String.toList_append, channelName_toList, List.append_assoc]

theorem overlap_of_same_key {a b first second : String} (same : getMethod a first = getMethod b second) :
    Overlap a b := by
  have texts := congrArg String.toList same
  rw [getMethod_toList, getMethod_toList] at texts
  have rest := List.append_cancel_left texts
  have begins : (b ++ ":").toList <+: (a ++ ":").toList ++ first.toList := by
    rw [rest]
    exact List.prefix_append _ _
  exact List.prefix_or_prefix_of_prefix (List.prefix_append _ _) begins

theorem beginsWith_iff (a b method : String) :
    beginsWith (getMethod b method) (channelName a) = true ↔
      (a ++ ":").toList <+: (b ++ ":").toList ++ method.toList := by
  rw [beginsWith, List.isPrefixOf_iff_prefix, getMethod_toList, channelName_toList, List.prefix_append_right_inj]

theorem overlap_of_begins {a b method : String} (begins : beginsWith (getMethod b method) (channelName a) = true) :
    Overlap a b :=
  List.prefix_or_prefix_of_prefix ((beginsWith_iff a b method).mp begins) (List.prefix_append _ _)

theorem operate_get {a b : String} (apart : ¬ Overlap a b) (listeners : LinkedMap String η) (operation : Operation η)
    (method : String) :
    (operate a listeners operation).get? (getMethod b method) = listeners.get? (getMethod b method) := by
  have distinct (other : String) : getMethod a other ≠ getMethod b method :=
    fun same => apart (overlap_of_same_key same)
  cases operation with
  | on other handle => simp [operate, distinct other]
  | once other wrapper => simp [operate, distinct other]
  | dispose =>
    have kept : beginsWith (getMethod b method) (channelName a) ≠ true := fun begins => apart (overlap_of_begins begins)
    simp [operate, dispose_get, kept]

/-- What is done through the channel `a` never changes the handler of a method of
    the channel `b` exactly when neither name, with its colon, begins the other. -/
theorem channels_isolated_iff [Inhabited η] (a b : String) :
    (∀ (listeners : LinkedMap String η) (operations : List (Operation η)) (method : String),
      (operations.foldl (operate a) listeners).get? (getMethod b method) = listeners.get? (getMethod b method)) ↔
    ¬ Overlap a b := by
  constructor
  · intro isolated overlap
    rcases overlap with begins | begins
    · -- disposing of `a` takes the empty method of `b` along
      have kept := isolated ((∅ : LinkedMap String η).insert (getMethod b "") default) [.dispose] ""
      have gone : beginsWith (getMethod b "") (channelName a) = true := (beginsWith_iff a b "").mpr (by simpa using begins)
      simp [operate, dispose_get, gone] at kept
    · -- the empty method of `a` is a method of `b`
      rcases begins with ⟨rest, split⟩
      have same : getMethod a "" = getMethod b (String.ofList rest) := by
        apply String.toList_injective
        rw [getMethod_toList, getMethod_toList, ← split]
        simp
      have kept := isolated ∅ [.on "" default] (String.ofList rest)
      simp [operate, same] at kept
  · intro apart listeners operations method
    induction operations generalizing listeners with
    | nil => rfl
    | cons operation rest ih => rw [List.foldl_cons, ih, operate_get apart]

/-- Closing the page `a` removes the update handler of the page `a:b`. -/
theorem dispose_reaches_longer_name :
    let listeners := (∅ : LinkedMap String Nat).insert (getMethod "a:b" "update") 0
    "a" ≠ "a:b" ∧ ([Operation.dispose].foldl (operate "a") listeners).get? (getMethod "a:b" "update") ≠
      listeners.get? (getMethod "a:b" "update") := by
  decide +kernel

end Isolation

end Sano.Framework
