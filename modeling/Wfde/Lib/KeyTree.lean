import Mathlib.Data.List.Basic
import Mathlib.Data.List.Infix

/-!
# Trees of named nodes

A node has a value and children, each under a key. A tree is a map from key paths to nodes: `put` makes
the node at a path and those on the way there, and no other ones.
-/

inductive KeyTree (κ α : Type*) where
  | node (value : α) (children : List (κ × KeyTree κ α))

namespace KeyTree

variable {κ α : Type*}

def value : KeyTree κ α → α
  | node value _ => value

def children : KeyTree κ α → List (κ × KeyTree κ α)
  | node _ children => children

variable [DecidableEq κ]

def child? (tree : KeyTree κ α) (key : κ) : Option (KeyTree κ α) :=
  (tree.children.find? fun child => child.1 = key).map Prod.snd

def get? (tree : KeyTree κ α) : List κ → Option (KeyTree κ α)
  | [] => some tree
  | key :: path => (tree.child? key).bind fun child => get? child path

/-- The child under the key is replaced, or made behind the other ones. -/
def putChild (key : κ) (new : KeyTree κ α) : List (κ × KeyTree κ α) → List (κ × KeyTree κ α)
  | [] => [(key, new)]
  | child :: children =>
      if child.1 = key then (key, new) :: children else child :: putChild key new children

/-- The value at a path. Nodes that are made on the way get the value `fresh`. -/
def put (fresh : α) (tree : KeyTree κ α) : List κ → α → KeyTree κ α
  | [], value => node value tree.children
  | key :: path, value =>
      let child := (tree.child? key).getD (node fresh [])
      node tree.value (putChild key (put fresh child path value) tree.children)

theorem find?_putChild_self (key : κ) (new : KeyTree κ α) (children : List (κ × KeyTree κ α)) :
    (putChild key new children).find? (fun child => child.1 = key) = some (key, new) := by
  induction children with
  | nil => simp [putChild]
  | cons child children ih =>
      rw [putChild]
      by_cases hkey : child.1 = key
      · rw [if_pos hkey, List.find?_cons_of_pos (by simp)]
      · rw [if_neg hkey, List.find?_cons_of_neg (by simpa using hkey), ih]

theorem find?_putChild_ne {key other : κ} (h : other ≠ key) (new : KeyTree κ α)
    (children : List (κ × KeyTree κ α)) :
    (putChild key new children).find? (fun child => child.1 = other)
      = children.find? fun child => child.1 = other := by
  induction children with
  | nil => simp [putChild, h.symm]
  | cons child children ih =>
      rw [putChild]
      by_cases hkey : child.1 = key
      · have hother : ¬ child.1 = other := fun heq => h (heq.symm.trans hkey)
        rw [if_pos hkey, List.find?_cons_of_neg (by simpa using h.symm),
          List.find?_cons_of_neg (by simpa using hother)]
      · rw [if_neg hkey, List.find?_cons, List.find?_cons, ih]

variable (fresh : α) (tree : KeyTree κ α)

theorem child?_put_self (key : κ) (path : List κ) (value : α) :
    (put fresh tree (key :: path) value).child? key
      = some (put fresh ((tree.child? key).getD (node fresh [])) path value) := by
  rw [put, child?, children, find?_putChild_self, Option.map_some]

theorem child?_put_ne {key other : κ} (h : other ≠ key) (path : List κ) (value : α) :
    (put fresh tree (key :: path) value).child? other = tree.child? other := by
  rw [put, child?, children, find?_putChild_ne h, child?]

theorem value_get?_put (path : List κ) (value : α) :
    ((put fresh tree path value).get? path).map KeyTree.value = some value := by
  induction path generalizing tree with
  | nil => rfl
  | cons key path ih => rw [get?, child?_put_self, Option.bind_some, ih]

theorem isSome_get?_leaf (value : α) (path : List κ) :
    ((node value [] : KeyTree κ α).get? path).isSome ↔ path = [] := by
  cases path with
  | nil => simp [get?]
  | cons key path => simp [get?, child?, children]

theorem isSome_get?_put (path other : List κ) (value : α) :
    ((put fresh tree path value).get? other).isSome
      ↔ (tree.get? other).isSome ∨ other <+: path := by
  induction path generalizing tree other with
  | nil =>
      cases other with
      | nil => simp [get?]
      | cons key other => simp [get?, put, child?, children]
  | cons key path ih =>
      cases other with
      | nil => simp [get?]
      | cons next other =>
          rw [get?, get?]
          by_cases hkey : next = key
          · subst hkey
            rw [child?_put_self, Option.bind_some, ih, List.cons_prefix_cons]
            cases tree.child? next with
            | some child => simp
            | none =>
                rw [Option.getD_none, isSome_get?_leaf, Option.bind_none]
                constructor
                · rintro (rfl | hprefix)
                  · exact Or.inr ⟨rfl, List.nil_prefix⟩
                  · exact Or.inr ⟨rfl, hprefix⟩
                · rintro (hnone | ⟨-, hprefix⟩)
                  · exact absurd hnone (by simp)
                  · exact Or.inr hprefix
          · rw [child?_put_ne fresh tree hkey, List.cons_prefix_cons]
            simp [hkey]

theorem get?_append (path other : List κ) :
    tree.get? (path ++ other) = (tree.get? path).bind fun child => child.get? other := by
  induction path generalizing tree with
  | nil => rfl
  | cons key path ih =>
      rw [List.cons_append, get?, get?, Option.bind_assoc]
      exact Option.bind_congr fun child _ => ih child

section Total

/-- The value at a path, or `fresh` where there is no node. -/
def valueAt (path : List κ) : α := ((tree.get? path).map value).getD fresh

/-- The node at a path, or a new one. -/
def nodeAt (path : List κ) : KeyTree κ α := (tree.get? path).getD (node fresh [])

omit [DecidableEq κ] in
def keys (tree : KeyTree κ α) : List κ := tree.children.map Prod.fst

theorem valueAt_leaf (path : List κ) : (node fresh [] : KeyTree κ α).valueAt fresh path = fresh := by
  cases path with
  | nil => rfl
  | cons key path => rfl

theorem valueAt_cons (key : κ) (path : List κ) :
    tree.valueAt fresh (key :: path)
      = ((tree.child? key).getD (node fresh [])).valueAt fresh path := by
  rw [valueAt, get?]
  cases tree.child? key with
  | some child => rfl
  | none => exact (valueAt_leaf fresh path).symm

theorem nodeAt_append (path other : List κ) :
    tree.nodeAt fresh (path ++ other) = (tree.nodeAt fresh path).nodeAt fresh other := by
  rw [nodeAt, nodeAt, nodeAt, get?_append]
  cases tree.get? path with
  | some child => rfl
  | none =>
      cases other with
      | nil => rfl
      | cons key other => rfl

/-- Below a node that is made up nothing is found. -/
theorem valueAt_append (defaultVal : α) (path : List κ) (key : κ) (other : List κ) :
    tree.valueAt defaultVal (path ++ key :: other)
      = (tree.nodeAt fresh path).valueAt defaultVal (key :: other) := by
  rw [valueAt, valueAt, nodeAt, get?_append]
  cases tree.get? path with
  | some child => rfl
  | none => rfl

theorem valueAt_put (path other : List κ) (value : α) :
    (put fresh tree path value).valueAt fresh other
      = if other = path then value else tree.valueAt fresh other := by
  induction path generalizing tree other with
  | nil =>
      cases other with
      | nil => rfl
      | cons key other => rfl
  | cons key path ih =>
      cases other with
      | nil => rfl
      | cons next other =>
          rw [valueAt_cons, valueAt_cons]
          by_cases hkey : next = key
          · subst hkey
            rw [child?_put_self, Option.getD_some, ih]
            simp
          · rw [child?_put_ne fresh tree hkey, if_neg fun h => hkey (List.cons.inj h).1]

theorem nodeAt_put (path other : List κ) (value : α) :
    (put fresh tree (path ++ other) value).nodeAt fresh path
      = put fresh (tree.nodeAt fresh path) other value := by
  induction path generalizing tree with
  | nil => rfl
  | cons key path ih =>
      have hnode (other : KeyTree κ α) : other.nodeAt fresh (key :: path)
          = ((other.child? key).getD (node fresh [])).nodeAt fresh path := by
        rw [← List.singleton_append, nodeAt_append]
        cases hchild : other.child? key <;> simp [nodeAt, get?, hchild]
      rw [List.cons_append, hnode, child?_put_self, Option.getD_some, ih, hnode]

theorem keys_putChild (key : κ) (new : KeyTree κ α) (children : List (κ × KeyTree κ α)) :
    (putChild key new children).map Prod.fst
      = if key ∈ children.map Prod.fst then children.map Prod.fst
        else children.map Prod.fst ++ [key] := by
  induction children with
  | nil => rfl
  | cons child children ih =>
      rw [putChild]
      by_cases hkey : child.1 = key
      · simp [hkey]
      · have hne : ¬ key = child.1 := fun h => hkey h.symm
        rw [if_neg hkey, List.map_cons, ih]
        by_cases hmem : key ∈ children.map Prod.fst
        · rw [if_pos hmem, if_pos (by rw [List.map_cons]; exact List.mem_cons_of_mem _ hmem)]
          rfl
        · rw [if_neg hmem, List.map_cons, if_neg (by simpa [hne] using hmem)]
          rfl

theorem keys_put (key : κ) (path : List κ) (value : α) :
    (put fresh tree (key :: path) value).keys
      = if key ∈ tree.keys then tree.keys else tree.keys ++ [key] := keys_putChild _ _ _

/-- Several values, each at its own path. -/
def putAll (entries : List (List κ × α)) : KeyTree κ α :=
  entries.foldl (fun tree entry => put fresh tree entry.1 entry.2) tree

theorem valueAt_putAll_of_notMem {entries : List (List κ × α)} {path : List κ}
    (h : path ∉ entries.map Prod.fst) :
    (tree.putAll fresh entries).valueAt fresh path = tree.valueAt fresh path := by
  induction entries generalizing tree with
  | nil => rfl
  | cons entry entries ih =>
      rw [List.map_cons, List.mem_cons, not_or] at h
      rw [putAll, List.foldl_cons]
      exact (ih _ h.2).trans ((valueAt_put fresh tree _ _ _).trans (if_neg h.1))

theorem valueAt_putAll {entries : List (List κ × α)} (hpaths : (entries.map Prod.fst).Nodup)
    {entry : List κ × α} (hentry : entry ∈ entries) :
    (tree.putAll fresh entries).valueAt fresh entry.1 = entry.2 := by
  induction entries generalizing tree with
  | nil => cases hentry
  | cons first entries ih =>
      rw [List.map_cons, List.nodup_cons] at hpaths
      rw [putAll, List.foldl_cons]
      rcases List.mem_cons.mp hentry with rfl | hentry
      · exact (valueAt_putAll_of_notMem fresh _ hpaths.1).trans
          ((valueAt_put fresh tree _ _ _).trans (if_pos rfl))
      · exact ih _ hpaths.2 hentry

theorem nodeAt_putAll (path : List κ) (entries : List (List κ × α)) :
    (tree.putAll fresh (entries.map fun entry => (path ++ entry.1, entry.2))).nodeAt fresh path
      = (tree.nodeAt fresh path).putAll fresh entries := by
  induction entries generalizing tree with
  | nil => rfl
  | cons entry entries ih =>
      rw [putAll, List.map_cons, List.foldl_cons, putAll, List.foldl_cons, ← nodeAt_put]
      exact ih _

end Total

end KeyTree
