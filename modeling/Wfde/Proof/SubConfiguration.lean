import Wfde.Configuration

/-!
# Views of the configuration

A sub-configuration puts the paths it was made with in front of the path of a call, a slash between
them where none is. `HaveValue` does not: it looks the path up from the top.
-/

namespace Wfde

namespace WfdeConfigurationPropertyTree

variable (conf : WfdeConfigurationPropertyTree) (first : Bytes) (rest : List Bytes)
  (path value : Bytes) (defaultVal : Option Bytes)

def rooted (path : Bytes) : Bytes := if path.head? = some slash then path else slash :: path

def concatenated : Bytes := first ++ (rest ++ [path]).flatMap rooted

/-- What a chain of `GetConfigForPath` calls gives. -/
def view : SubConfig := rest.foldl SubConfig.getConfigForPath (getConfigForPath first)

def Has (keys : List Bytes) : Prop := (conf.data.get? keys).isSome

instance (keys : List Bytes) : Decidable (conf.Has keys) := inferInstanceAs (Decidable (_ = _))

/-- The calls on a view do what the calls at the top do with the concatenated path, and what has been
set is there. -/
structure IsView : Prop where
  getValue : (view first rest).getValue conf path defaultVal
    = conf.getValue (concatenated first rest path) defaultVal
  setValue : (view first rest).setValue conf path value
    = conf.setValue (concatenated first rest path) value
  haveValue : (view first rest).haveValue conf path = conf.haveValue (concatenated first rest path)
  enumNodes : (view first rest).enumNodes conf path = conf.enumNodes (concatenated first rest path)
  getValue_setValue :
    (view first rest).getValue ((view first rest).setValue conf path value) path defaultVal = value
  haveValue_setValue :
    (view first rest).haveValue ((view first rest).setValue conf path value) path = true

theorem sep_append : SubConfig.sep path ++ path = rooted path := by
  unfold SubConfig.sep rooted
  split
  · rfl
  · rfl

theorem rootPath_view : (view first rest).rootPath = first ++ rest.flatMap rooted := by
  suffices h : ∀ conf : SubConfig, (rest.foldl SubConfig.getConfigForPath conf).rootPath
      = conf.rootPath ++ rest.flatMap rooted from h _
  induction rest with
  | nil => simp
  | cons next rest ih =>
      intro conf
      rw [List.foldl_cons, ih, SubConfig.getConfigForPath, List.append_assoc conf.rootPath,
        sep_append, List.append_assoc, List.flatMap_cons]

theorem rootPath_append :
    (view first rest).rootPath ++ SubConfig.sep path ++ path = concatenated first rest path := by
  rw [List.append_assoc, sep_append, rootPath_view, concatenated, List.flatMap_append,
    List.flatMap_singleton, List.append_assoc]

theorem getValue_setValue : (conf.setValue path value).getValue path defaultVal = value := by
  have hvalue := KeyTree.value_get?_put [] conf.data (toPath path) value
  rw [WfdeConfigurationPropertyTree.getValue, WfdeConfigurationPropertyTree.setValue]
  cases hnode : (conf.data.put [] (toPath path) value).get? (toPath path) with
  | some node => simpa [hnode] using hvalue
  | none => simp [hnode] at hvalue

theorem has_setValue (keys : List Bytes) :
    (conf.setValue path value).Has keys ↔ conf.Has keys ∨ keys <+: toPath path :=
  KeyTree.isSome_get?_put [] conf.data (toPath path) keys value

theorem haveValue_eq_true : conf.haveValue path = true ↔ conf.Has (toPath path) := Iff.rfl

theorem pathKeys_append (front back : Bytes) :
    pathKeys (front ++ slash :: back) = front.splitOn slash ++ pathKeys back := by
  have hback : back.splitOn slash ≠ [] := by simp
  simp only [pathKeys, List.splitOn_append_cons_self, List.getLast?_append_of_ne_nil _ hback]
  split
  · rw [List.dropLast_append_of_ne_nil hback]
  · rfl

end WfdeConfigurationPropertyTree

open WfdeConfigurationPropertyTree

/-- **Views of the configuration.** All calls on a view do what the same calls at the top do with the
concatenated path if and only if the path, looked up from the top, leads to a node where the
concatenated path leads to one, and the keys of the path are there or the first keys of the
concatenated path. -/
theorem isView_iff (conf : WfdeConfigurationPropertyTree) (first : Bytes) (rest : List Bytes)
    (path value : Bytes) (defaultVal : Option Bytes) :
    IsView conf first rest path value defaultVal
      ↔ (conf.Has (toPath path) ↔ conf.Has (toPath (concatenated first rest path)))
        ∧ (conf.Has (toPath path) ∨ toPath path <+: toPath (concatenated first rest path)) := by
  have hset : (view first rest).setValue conf path value
      = conf.setValue (concatenated first rest path) value := by
    rw [SubConfig.setValue, rootPath_append]
  have hhave : (view first rest).haveValue ((view first rest).setValue conf path value) path = true
      ↔ conf.Has (toPath path) ∨ toPath path <+: toPath (concatenated first rest path) := by
    rw [hset, SubConfig.haveValue, haveValue_eq_true, has_setValue]
  constructor
  · intro h
    refine ⟨?_, hhave.mp h.haveValue_setValue⟩
    rw [← haveValue_eq_true, ← haveValue_eq_true, ← h.haveValue]
    rfl
  · rintro ⟨hsame, hpath⟩
    refine ⟨?_, hset, ?_, ?_, ?_, hhave.mpr hpath⟩
    · rw [SubConfig.getValue, rootPath_append]
    · rw [SubConfig.haveValue, Bool.eq_iff_iff]
      exact hsame
    · rw [SubConfig.enumNodes, rootPath_append]
    · rw [hset, SubConfig.getValue, rootPath_append, getValue_setValue]

/-- The configuration of the test, as far as it matters here. -/
def colors : WfdeConfigurationPropertyTree :=
  { data := .node [] [(bytes "key2", .node [] [(bytes "key2a", .node (bytes "key2a_value") [])])] }

/-- `key2a` is there in the view of `key2`, and `HaveValue` does not find it. -/
theorem not_isView_colors :
    ¬ IsView colors (bytes "/key2") [] (bytes "key2a") (bytes "blue") none := by
  intro h
  exact absurd h.haveValue (by decide +kernel)

end Wfde
