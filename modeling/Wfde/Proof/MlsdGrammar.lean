import Mathlib.Data.List.TakeWhile
import Wfde.Ftp.Protocol
import Wfde.Lib.Segments

/-!
# Reading a listing

How a client reads a line of a listing of facts: pairs of a fact and a value, each with a semicolon
behind it, then one space and the name.
-/

namespace Wfde

open Segments

def equalsSign : UInt8 := 61
def semicolon : UInt8 := 59

/-- The text of one line that CR LF ends. -/
def lineText (line : Bytes) : Option Bytes :=
  let text := line.takeWhile fun c => c != cr && c != lf
  if line = text ++ crlf then some text else none

/-- `fact=value` -/
def parseFact (pair : Bytes) : Option (Bytes × Bytes) :=
  match pair.dropWhile (· != equalsSign) with
  | _ :: value => some (pair.takeWhile (· != equalsSign), value)
  | [] => none

/-- `fact=value;` as often as it comes, one space and the name. -/
def parseMlsd (line : Bytes) : Option (List (Bytes × Bytes) × Bytes) := do
  let text ← lineText line
  let name ← (text.dropWhile (· != space)).tail?
  let pairs := (text.takeWhile (· != space)).splitOn semicolon
  if pairs.getLast? = some [] then return (← pairs.dropLast.mapM parseFact, name) else none

def factsText (facts : List (Bytes × Bytes)) : Bytes :=
  facts.flatMap fun fact => fact.1 ++ equalsSign :: fact.2 ++ [semicolon]

def mlsdLine (facts : List (Bytes × Bytes)) (name : Bytes) : Bytes :=
  factsText facts ++ space :: name ++ crlf

def IsLineText (name : Bytes) : Prop := ∀ c ∈ name, c ≠ cr ∧ c ≠ lf

instance (name : Bytes) : Decidable (IsLineText name) := List.decidableBAll _ name

/-- The fact and its value have nothing in them that ends them. -/
structure IsFact (fact : Bytes × Bytes) : Prop where
  label : ∀ c ∈ fact.1, c ≠ cr ∧ c ≠ lf ∧ c ≠ space ∧ c ≠ semicolon ∧ c ≠ equalsSign
  value : ∀ c ∈ fact.2, c ≠ cr ∧ c ≠ lf ∧ c ≠ space ∧ c ≠ semicolon

theorem lineText_append {text : Bytes} (h : IsLineText text) : lineText (text ++ crlf) = some text := by
  have htext : ∀ c ∈ text, (c != cr && c != lf) = true := fun c hc => by simpa using h c hc
  have htake : (text ++ crlf).takeWhile (fun c => c != cr && c != lf) = text := by
    rw [List.takeWhile_append_of_pos htext]
    exact List.append_nil text
  rw [lineText, htake, if_pos rfl]

theorem eq_of_lineText {line text : Bytes} (h : lineText line = some text) : line = text ++ crlf := by
  unfold lineText at h
  dsimp only at h
  split at h
  · cases h
    assumption
  · cases h

theorem takeWhile_of_lineText {line text : Bytes} (h : lineText line = some text) :
    (line.takeWhile fun c => c != cr && c != lf) = text := by
  unfold lineText at h
  dsimp only at h
  split at h
  · exact Option.some.inj h
  · cases h

theorem parseFact_append {fact : Bytes × Bytes} (h : IsFact fact) :
    parseFact (fact.1 ++ equalsSign :: fact.2) = some fact := by
  have hlabel : equalsSign ∉ fact.1 := fun hmem => (h.label _ hmem).2.2.2.2 rfl
  rw [parseFact, dropWhile_append_sep hlabel, takeWhile_append_sep hlabel]

theorem eq_of_parseFact {pair : Bytes} {fact : Bytes × Bytes} (h : parseFact pair = some fact) :
    pair = fact.1 ++ equalsSign :: fact.2 := by
  unfold parseFact at h
  cases hdrop : pair.dropWhile (· != equalsSign) with
  | nil =>
      rw [hdrop] at h
      cases h
  | cons c value =>
      rw [hdrop] at h
      cases h
      exact eq_of_dropWhile_cons hdrop

theorem factsText_cons (fact : Bytes × Bytes) (facts : List (Bytes × Bytes)) :
    factsText (fact :: facts) = fact.1 ++ equalsSign :: fact.2 ++ semicolon :: factsText facts := by
  simp [factsText]

theorem splitOn_factsText {facts : List (Bytes × Bytes)} (h : ∀ fact ∈ facts, IsFact fact) :
    (factsText facts).splitOn semicolon
      = facts.map (fun fact => fact.1 ++ equalsSign :: fact.2) ++ [[]] := by
  induction facts with
  | nil => rfl
  | cons fact facts ih =>
      have hfact := h fact List.mem_cons_self
      have hpair : semicolon ∉ fact.1 ++ equalsSign :: fact.2 := by
        rw [List.mem_append, List.mem_cons, not_or, not_or]
        exact ⟨fun hmem => (hfact.label _ hmem).2.2.2.1 rfl, by decide,
          fun hmem => (hfact.value _ hmem).2.2.2 rfl⟩
      rw [factsText_cons, List.splitOn_append_cons_self, List.splitOn_eq_singleton hpair,
        ih fun other hother => h other (List.mem_cons_of_mem _ hother), List.map_cons,
        List.singleton_append, List.cons_append]

theorem mapM_parseFact {facts : List (Bytes × Bytes)} (h : ∀ fact ∈ facts, IsFact fact) :
    (facts.map fun fact => fact.1 ++ equalsSign :: fact.2).mapM parseFact = some facts := by
  induction facts with
  | nil => rfl
  | cons fact facts ih =>
      rw [List.map_cons, List.mapM_cons, parseFact_append (h fact List.mem_cons_self),
        ih fun other hother => h other (List.mem_cons_of_mem _ hother)]
      rfl

theorem flatMap_of_mapM_parseFact {pairs : List Bytes} {facts : List (Bytes × Bytes)}
    (h : pairs.mapM parseFact = some facts) :
    pairs.flatMap (fun pair => pair ++ [semicolon]) = factsText facts := by
  induction pairs generalizing facts with
  | nil =>
      cases h
      rfl
  | cons pair pairs ih =>
      rw [List.mapM_cons] at h
      obtain ⟨fact, hfact, h⟩ := Option.bind_eq_some_iff.mp h
      obtain ⟨others, hothers, h⟩ := Option.bind_eq_some_iff.mp h
      cases h
      rw [List.flatMap_cons, ih hothers, eq_of_parseFact hfact, factsText_cons, List.append_assoc,
        List.append_assoc, List.append_assoc, List.singleton_append]

theorem intercalate_append_nil (pairs : List Bytes) :
    [semicolon].intercalate (pairs ++ [[]]) = pairs.flatMap fun pair => pair ++ [semicolon] := by
  induction pairs with
  | nil => rfl
  | cons pair pairs ih =>
      rw [List.flatMap_cons, ← ih]
      cases pairs with
      | nil => simp [List.intercalate]
      | cons next others => simp [List.intercalate]

theorem of_mem_factsText {facts : List (Bytes × Bytes)} (h : ∀ fact ∈ facts, IsFact fact) :
    ∀ c ∈ factsText facts, c ≠ cr ∧ c ≠ lf ∧ c ≠ space := by
  intro c hc
  obtain ⟨fact, hfact, hc⟩ := List.mem_flatMap.mp hc
  have hisFact := h fact hfact
  simp only [List.append_assoc, List.mem_append, List.mem_cons, List.not_mem_nil, or_false] at hc
  rcases hc with hc | (rfl | hc) | rfl
  · exact ⟨(hisFact.label c hc).1, (hisFact.label c hc).2.1, (hisFact.label c hc).2.2.1⟩
  · decide
  · exact ⟨(hisFact.value c hc).1, (hisFact.value c hc).2.1, (hisFact.value c hc).2.2.1⟩
  · decide

theorem parseMlsd_mlsdLine {facts : List (Bytes × Bytes)} {name : Bytes}
    (h : ∀ fact ∈ facts, IsFact fact) (hname : IsLineText name) :
    parseMlsd (mlsdLine facts name) = some (facts, name) := by
  have hfacts := of_mem_factsText h
  have hspace : space ∉ factsText facts := fun hmem => (hfacts _ hmem).2.2 rfl
  have htext : IsLineText (factsText facts ++ space :: name) := by
    intro c hc
    rcases List.mem_append.mp hc with hc | hc
    · exact ⟨(hfacts c hc).1, (hfacts c hc).2.1⟩
    · rcases List.mem_cons.mp hc with rfl | hc
      · decide
      · exact hname c hc
  rw [parseMlsd, mlsdLine, lineText_append htext, Option.bind_eq_bind, Option.bind_some,
    dropWhile_append_sep hspace, takeWhile_append_sep hspace, splitOn_factsText h]
  simp [mapM_parseFact h]

/-- What is read is what the line is put together from, and no space is in the facts. -/
theorem eq_of_parseMlsd {line name : Bytes} {facts : List (Bytes × Bytes)}
    (h : parseMlsd line = some (facts, name)) :
    line = mlsdLine facts name ∧ space ∉ factsText facts := by
  obtain ⟨text, htext, h⟩ := Option.bind_eq_some_iff.mp h
  obtain ⟨name', hname, h⟩ := Option.bind_eq_some_iff.mp h
  dsimp only at h
  split at h
  · rename_i hlast
    obtain ⟨facts', hfacts, h⟩ := Option.bind_eq_some_iff.mp h
    cases h
    obtain ⟨c, hdrop⟩ : ∃ c, text.dropWhile (· != space) = c :: name := by
      cases hdrop : text.dropWhile (· != space) with
      | nil => simp [hdrop] at hname
      | cons c rest => exact ⟨c, by simpa [hdrop] using hname⟩
    have hpairs := List.dropLast_append_getLast? [] hlast
    have htake : text.takeWhile (· != space) = factsText facts := by
      rw [← flatMap_of_mapM_parseFact hfacts, ← intercalate_append_nil, hpairs,
        List.intercalate_splitOn]
    constructor
    · rw [eq_of_lineText htext, eq_of_dropWhile_cons hdrop, htake, mlsdLine]
    · rw [← htake]
      intro hmem
      simpa using List.mem_takeWhile_imp hmem
  · cases h

theorem facts_of_parseMlsd_space {line name : Bytes} {facts : List (Bytes × Bytes)}
    (h : parseMlsd (space :: line) = some (facts, name)) : facts = [] := by
  obtain ⟨hline, hspace⟩ := eq_of_parseMlsd h
  cases facts with
  | nil => rfl
  | cons fact facts =>
      obtain ⟨c, others, hcons⟩ := List.exists_cons_of_ne_nil
        (show factsText (fact :: facts) ≠ [] by simp [factsText])
      rw [mlsdLine, hcons, List.cons_append, List.cons_append] at hline
      rw [hcons, ← (List.cons.inj hline).1] at hspace
      exact absurd List.mem_cons_self hspace

end Wfde
