import Wfde.AuthManager
import Wfde.Lib.Fallible

/-!
# Users and aliases

A name stands for what the last node of that name says, where names agree that differ in case. An alias
stands for what its target did when the alias was read.
-/

namespace Wfde

/-- Who a name stands for, by the nodes from the last one back to the first. -/
def resolve : List UserNode → Bytes → Option ClientImpl
  | [], _ => none
  | node :: earlier, name =>
      if ciKey node.name = ciKey name then
        if node.linksTo.isEmpty then some ⟨node.name, node.passwd, node.permissions⟩
        else resolve earlier node.linksTo
      else resolve earlier name

/-- Every alias stands for a user by the nodes in front of it. -/
def AliasesResolve (nodes : List UserNode) : Prop :=
  ∀ front node back, nodes = front ++ node :: back → node.linksTo ≠ [] →
    (resolve front.reverse node.linksTo).isSome

namespace AuthManagerImpl

variable {self : AuthManagerImpl} {name other : Bytes} {client : ClientImpl}

theorem find_assign (self : AuthManagerImpl) (name other : Bytes) (client : ClientImpl) :
    (self.assign name client).find other
      = if ciKey name = ciKey other then some client else self.find other := by
  unfold assign
  split
  · rename_i hthere
    -- the entries keep their keys
    have hkeys : (fun entry : Bytes × ClientImpl => ciKey entry.1 == ciKey other)
          ∘ (fun entry => if ciKey entry.1 == ciKey name then (entry.1, client) else entry)
        = fun entry => ciKey entry.1 == ciKey other := by
      funext entry
      dsimp only [Function.comp_apply]
      split <;> rfl
    rw [find, find, List.find?_map, hkeys, Option.map_map]
    cases hfound : self.clients.find? fun entry => ciKey entry.1 == ciKey other with
    | none =>
        have hnever : ¬ ciKey name = ciKey other := by
          intro hsame
          obtain ⟨entry, hentry, hkey⟩ := List.mem_map.mp hthere
          exact absurd (beq_iff_eq.mpr (hkey.trans hsame)) (List.find?_eq_none.mp hfound entry hentry)
        rw [if_neg hnever]
        rfl
    | some entry =>
        have hentry := List.find?_some hfound
        rw [beq_iff_eq] at hentry
        by_cases hsame : ciKey name = ciKey other
        · simp [hentry, hsame]
        · have hne : ¬ ciKey other = ciKey name := fun h => hsame h.symm
          simp [hentry, hsame, hne]
  · rename_i hnew
    rw [find, find, List.find?_append]
    by_cases hsame : ciKey name = ciKey other
    · have hnone : self.clients.find? (fun entry => ciKey entry.1 == ciKey other) = none := by
        apply List.find?_eq_none.mpr
        intro entry hentry hkey
        exact hnew (List.mem_map.mpr ⟨entry, hentry, (beq_iff_eq.mp hkey).trans hsame.symm⟩)
      simp [hnone, hsame]
    · simp [hsame]

theorem addNode_eq_ok {node : UserNode} {added : AuthManagerImpl} :
    self.addNode node = .ok added
      ↔ ∃ client, (if node.linksTo.isEmpty then some ⟨node.name, node.passwd, node.permissions⟩
          else self.find node.linksTo) = some client ∧ added = self.assign node.name client := by
  unfold addNode
  cases node.linksTo.isEmpty with
  | true => simp [eq_comm]
  | false =>
      cases self.find node.linksTo with
      | none => simp
      | some client => simp [eq_comm]

/-- The map holds what the nodes so far say. -/
def Holds (past : List UserNode) (self : AuthManagerImpl) : Prop :=
  ∀ name, self.find name = resolve past name

theorem resolve_cons (node : UserNode) (past : List UserNode) (name : Bytes) :
    resolve (node :: past) name
      = if ciKey node.name = ciKey name then
          (if node.linksTo.isEmpty then some ⟨node.name, node.passwd, node.permissions⟩
            else resolve past node.linksTo)
        else resolve past name := rfl

theorem Holds.addNode {past : List UserNode} (h : Holds past self) {node : UserNode}
    {added : AuthManagerImpl} (hadd : self.addNode node = .ok added) : Holds (node :: past) added := by
  obtain ⟨client, hclient, rfl⟩ := addNode_eq_ok.mp hadd
  intro name
  rw [find_assign, resolve_cons, ← h, ← h, hclient]

theorem Holds.addNode_eq_error {past : List UserNode} (h : Holds past self) {node : UserNode}
    {e : Exception} (hadd : self.addNode node = .error e) :
    e = .notFound ∧ node.linksTo ≠ [] ∧ resolve past node.linksTo = none := by
  unfold AuthManagerImpl.addNode at hadd
  cases hlinks : node.linksTo.isEmpty with
  | true => simp [hlinks] at hadd
  | false =>
      rw [hlinks, if_neg Bool.false_ne_true] at hadd
      cases hfind : self.find node.linksTo with
      | some client => simp [hfind] at hadd
      | none =>
          rw [hfind] at hadd
          refine ⟨(Except.error.inj hadd).symm, ?_, (h _).symm.trans hfind⟩
          intro hempty
          simp [hempty] at hlinks

theorem Holds.foldlM {past : List UserNode} (h : Holds past self) (nodes : List UserNode) :
    (∃ auth, nodes.foldlM AuthManagerImpl.addNode self = .ok auth ∧ Holds (nodes.reverse ++ past) auth)
      ∨ nodes.foldlM AuthManagerImpl.addNode self = .error .notFound
        ∧ ∃ front node back, nodes = front ++ node :: back ∧ node.linksTo ≠ []
          ∧ resolve (front.reverse ++ past) node.linksTo = none := by
  induction nodes generalizing self past with
  | nil => exact .inl ⟨self, rfl, h⟩
  | cons node nodes ih =>
      rw [List.foldlM_cons]
      cases hadd : self.addNode node with
      | error e =>
          obtain ⟨rfl, hlinks, hnone⟩ := h.addNode_eq_error hadd
          exact .inr ⟨rfl, [], node, nodes, rfl, hlinks, hnone⟩
      | ok added =>
          change (∃ auth, nodes.foldlM _ added = _ ∧ _) ∨ nodes.foldlM _ added = _ ∧ _
          rcases ih (h.addNode hadd) with ⟨auth, hauth, hholds⟩ | ⟨herror, front, bad, back, rfl, hbad⟩
          · refine .inl ⟨auth, hauth, ?_⟩
            rwa [List.reverse_cons, List.append_assoc, List.singleton_append]
          · refine .inr ⟨herror, node :: front, bad, back, rfl, ?_⟩
            rwa [List.reverse_cons, List.append_assoc, List.singleton_append]

theorem holds_make {nodes : List UserNode} {auth : AuthManagerImpl} (h : make nodes = .ok auth) :
    Holds nodes.reverse auth := by
  have hempty : Holds [] ({} : AuthManagerImpl) := fun _ => rfl
  rcases hempty.foldlM nodes with ⟨other, hother, hholds⟩ | ⟨herror, -⟩
  · rw [make, hother] at h
    obtain rfl := Except.ok.inj h
    rwa [List.append_nil] at hholds
  · rw [make, herror] at h
    cases h

theorem exists_make_iff (nodes : List UserNode) :
    (∃ auth, make nodes = .ok auth) ↔ AliasesResolve nodes := by
  have hempty : Holds [] ({} : AuthManagerImpl) := fun _ => rfl
  constructor
  · rintro ⟨auth, hauth⟩ front node back rfl hlinks
    rw [make, List.foldlM_append] at hauth
    obtain ⟨before, hbefore, hrest⟩ := Fallible.bind_eq_ok.mp hauth
    obtain ⟨added, hadd, -⟩ := Fallible.foldlM_cons_eq_ok.mp hrest
    obtain ⟨client, hclient, -⟩ := addNode_eq_ok.mp hadd
    rw [if_neg (by simpa using hlinks), holds_make hbefore] at hclient
    exact Option.isSome_of_mem hclient
  · intro hresolve
    rcases hempty.foldlM nodes with ⟨auth, hauth, -⟩ | ⟨-, front, node, back, rfl, hlinks, hnone⟩
    · exact ⟨auth, hauth⟩
    · have hsome := hresolve front node back rfl hlinks
      rw [List.append_nil] at hnone
      rw [hnone] at hsome
      cases hsome

theorem login_eq_ok {auth : AuthManagerImpl} {name pwd : Bytes} {client : Client} :
    auth.login name pwd = .ok client
      ↔ ∃ user, auth.find name = some user ∧ user.pwd = pwd
        ∧ client = ⟨user.name, some user.permissions⟩ := by
  unfold login
  cases auth.find name with
  | none => simp
  | some user =>
      by_cases hpwd : user.pwd = pwd
      · subst hpwd
        simp [eq_comm]
      · refine iff_of_false ?_ ?_
        · dsimp only
          split
          · nofun
          · nofun
        · rintro ⟨found, hfound, hsame, -⟩
          obtain rfl := Option.some.inj hfound
          exact hpwd hsame

end AuthManagerImpl

end Wfde
