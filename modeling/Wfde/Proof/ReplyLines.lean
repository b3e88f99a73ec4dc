import Wfde.Lib.Lines
import Wfde.Proof.Decimal
import Wfde.Proof.MlsdGrammar

/-!
# The lines of a reply

A client reads lines until one starts with the number and a space. A reply ends there and not before
if the lines behind its first one start with a space or are empty.
-/

namespace Wfde

open Lines

/-- A line without the CR at its end. -/
def withoutCr (line : Bytes) : Bytes := if line.getLast? = some cr then line.dropLast else line

/-- The lines of a text that ends with one. -/
def textLines (text : Bytes) : List Bytes := (text.splitOn lf).dropLast.map withoutCr

def FtpReply.number (reply : FtpReply) : Bytes := decimal reply.code.resolve.1

/-- The last line is the only one that starts with the number and a space, and every line between it
and the first one starts with a space or is empty. -/
structure FtpReply.IsFramed (reply : FtpReply) : Prop where
  digits : reply.number.length = 3
  closed : crlf <:+ reply.text
  lines : ∃ front last, textLines reply.text = front ++ [last] ∧ reply.number ++ [space] <+: last
    ∧ (∀ line ∈ front, ¬ reply.number ++ [space] <+: line)
    ∧ ∀ line ∈ front.tail, line = [] ∨ [space] <+: line

section Lines

variable {text line : Bytes} {c : UInt8}

theorem withoutCr_append (line : Bytes) : withoutCr (line ++ [cr]) = line := by
  simp [withoutCr]

theorem withoutCr_cons (hc : c ≠ cr) (line : Bytes) : ∃ rest, withoutCr (c :: line) = c :: rest := by
  unfold withoutCr
  split
  · rename_i hlast
    cases line with
    | nil => exact absurd (Option.some.inj hlast) hc
    | cons d line => exact ⟨_, rfl⟩
  · exact ⟨line, rfl⟩

theorem withoutCr_isPrefix (line : Bytes) : withoutCr line <+: line := by
  unfold withoutCr
  split
  · exact List.dropLast_prefix line
  · exact List.prefix_rfl

/-- The part of a text before its last line end holds its lines. -/
theorem splitOn_of_closed (front : Bytes) :
    (front ++ crlf).splitOn lf = (front ++ [cr]).splitOn lf ++ [[]] := by
  rw [show front ++ crlf = front ++ [cr] ++ lf :: [] by simp [crlf], List.splitOn_append_cons_self]
  rfl

theorem textLines_append (front : Bytes) :
    textLines (front ++ crlf) = ((front ++ [cr]).splitOn lf).map withoutCr := by
  rw [textLines, splitOn_of_closed, List.dropLast_concat]

theorem exists_line {front back : Bytes} (hc : c ≠ cr) (hlf : c ≠ lf)
    (h : text = front ++ lf :: c :: back) : ∃ rest, c :: rest ∈ (textLines (text ++ crlf)).tail := by
  have htail : (c :: (back ++ [cr])).takeWhile (· != lf) ∈ ((text ++ [cr]).splitOn lf).tail :=
    mem_tail_splitOn.mpr ⟨front, c :: (back ++ [cr]), by simp [h], rfl⟩
  rw [List.takeWhile_cons_of_pos (by simpa using hlf)] at htail
  obtain ⟨rest, hrest⟩ := withoutCr_cons hc ((back ++ [cr]).takeWhile (· != lf))
  refine ⟨rest, ?_⟩
  rw [textLines_append, ← List.map_tail, ← hrest]
  exact List.mem_map_of_mem htail

end Lines

section IsFramed

variable {reply : FtpReply}

theorem number_eq_cons (reply : FtpReply) : ∃ c rest, reply.number = c :: rest ∧ isDigit c = true := by
  obtain ⟨c, rest, hcons⟩ := List.exists_cons_of_ne_nil (decimal_ne_nil reply.code.resolve.1)
  exact ⟨c, rest, hcons, isDigit_of_mem_decimal (hcons ▸ List.mem_cons_self)⟩

theorem length_number (reply : FtpReply) : reply.number.length = 3 := by
  have hrange : 100 ≤ reply.code.resolve.1 ∧ reply.code.resolve.1 < 1000 := by
    cases reply.code <;> decide
  have hle : reply.number.length ≤ 3 := (length_decimal_le (by decide)).mpr hrange.2
  have hgt : ¬ reply.number.length ≤ 2 := fun hshort =>
    absurd ((length_decimal_le (by decide)).mp hshort) (by omega)
  omega

theorem lf_not_mem_number (reply : FtpReply) : lf ∉ reply.number := fun hmem =>
  absurd (isDigit_of_mem_decimal hmem) (by decide)

/-- The message, or the text of the code. -/
def FtpReply.body (reply : FtpReply) : Bytes :=
  if reply.message.isEmpty then reply.code.resolve.2 else reply.message

theorem text_of_single (h : reply.multiLine = false) :
    reply.text = reply.number ++ [space] ++ reply.body ++ crlf := by
  simp [FtpReply.text, FtpReply.number, FtpReply.body, h, bytes, space]

theorem text_of_multi (h : reply.multiLine = true) :
    reply.text
      = reply.number ++ bytes "- " ++ reply.body ++ crlf ++ (reply.number ++ bytes " END") ++ crlf := by
  simp [FtpReply.text, FtpReply.number, FtpReply.body, h, bytes, crlf, cr, lf]

theorem not_number_prefix {line : Bytes} (h : line = [] ∨ [space] <+: line) :
    ¬ reply.number ++ [space] <+: line := by
  obtain ⟨c, rest, hnumber, hc⟩ := number_eq_cons reply
  rw [hnumber, List.cons_append]
  intro hprefix
  rcases h with rfl | hspace
  · exact List.cons_ne_nil _ _ (List.prefix_nil.mp hprefix)
  · obtain ⟨rest, rfl⟩ := hspace
    obtain rfl : c = space := (List.cons_prefix_cons.mp hprefix).1
    exact absurd hc (by decide)

theorem isFramed_of_single (h : reply.multiLine = false) (hbody : IsLineText reply.body) :
    reply.IsFramed := by
  have htext := text_of_single h
  have hno : lf ∉ reply.number ++ [space] ++ reply.body ++ [cr] := by
    have hlf : lf ∉ reply.body := fun hmem => (hbody lf hmem).2 rfl
    simp [lf_not_mem_number, hlf, show lf ≠ space by decide, show lf ≠ cr by decide]
  refine ⟨length_number reply, ⟨_, htext.symm⟩, [], reply.number ++ [space] ++ reply.body, ?_,
    List.prefix_append _ _, by simp, by simp⟩
  rw [htext, textLines_append, List.splitOn_eq_singleton hno, List.map_singleton, withoutCr_append]
  rfl

/-- A reply of several lines, if what stands behind every line end of its body is empty or starts with
a space. -/
theorem isFramed_of_multi (h : reply.multiLine = true)
    (hbody : ∀ line ∈ ((reply.body ++ [cr]).splitOn lf).tail,
      withoutCr line = [] ∨ [space] <+: withoutCr line) : reply.IsFramed := by
  let first : Bytes := reply.number ++ bytes "- "
  let last : Bytes := reply.number ++ bytes " END"
  have hfirst : lf ∉ first := by
    simp [first, lf_not_mem_number, show lf ∉ bytes "- " by decide]
  have hlast : lf ∉ last ++ [cr] := by
    simp [last, lf_not_mem_number, show lf ∉ bytes " END" by decide, show lf ≠ cr by decide]
  have htext : reply.text = first ++ reply.body ++ crlf ++ last ++ crlf := by
    rw [text_of_multi h, ← List.append_assoc]
  have hlines : textLines reply.text
      = ((first ++ (reply.body ++ [cr])).splitOn lf).map withoutCr ++ [last] := by
    have hcut : first ++ reply.body ++ crlf ++ last ++ [cr]
        = first ++ (reply.body ++ [cr]) ++ lf :: (last ++ [cr]) := by simp [crlf]
    rw [htext, textLines_append, hcut, List.splitOn_append_cons_self, List.map_append,
      List.splitOn_eq_singleton hlast, List.map_singleton, withoutCr_append]
  have htail : ∀ line ∈ (((first ++ (reply.body ++ [cr])).splitOn lf).map withoutCr).tail,
      line = [] ∨ [space] <+: line := by
    rw [← List.map_tail, tail_splitOn_append hfirst]
    intro line hline
    obtain ⟨raw, hraw, rfl⟩ := List.mem_map.mp hline
    exact hbody raw hraw
  refine ⟨length_number reply, ⟨_, htext.symm⟩, _, last, hlines, ?_, ?_, htail⟩
  · exact (List.prefix_append_right_inj _).mpr (List.prefix_append [space] (bytes "END"))
  · intro line hline hnumber
    rw [splitOn_eq_cons, List.map_cons] at hline
    rcases List.mem_cons.mp hline with rfl | hline
    · have hkept : ∀ c ∈ first, (c != lf) = true := fun c hc => by
        simpa using ne_of_mem_of_not_mem hc hfirst
      have hhead := hnumber.trans (withoutCr_isPrefix _)
      rw [List.takeWhile_append_of_pos hkept, List.append_assoc, List.prefix_append_right_inj] at hhead
      exact absurd (List.cons_prefix_cons.mp hhead).1 (by decide)
    · exact not_number_prefix (htail line (by rwa [splitOn_eq_cons, List.map_cons])) hnumber

/-- What is sent behind a line end when a CR comes last: nothing more, or a space. -/
theorem withoutCr_takeWhile {back : Bytes} (h : back = [cr] ∨ [space] <+: back) :
    withoutCr (back.takeWhile (· != lf)) = [] ∨ [space] <+: withoutCr (back.takeWhile (· != lf)) := by
  rcases h with rfl | ⟨rest, rfl⟩
  · exact .inl (by decide)
  · obtain ⟨line, hline⟩ := withoutCr_cons (show space ≠ cr by decide) (rest.takeWhile (· != lf))
    rw [List.singleton_append, List.takeWhile_cons_of_pos (by decide), hline]
    exact .inr (List.prefix_append [space] line)

/-- A reply of several lines whose first line end is its own, if behind it and behind every line end
that follows there is a space, unless nothing is there. -/
theorem isFramed_of_rest {first rest : Bytes} (h : reply.multiLine = true)
    (hbody : reply.body = first ++ crlf ++ rest) (hfirst : IsLineText first)
    (hstart : rest = [] ∨ [space] <+: rest)
    (hrest : ∀ front back, rest = front ++ lf :: back → back = [] ∨ [space] <+: back) :
    reply.IsFramed := by
  have hclosed {back : Bytes} (hback : back = [] ∨ [space] <+: back) :
      back ++ [cr] = [cr] ∨ [space] <+: back ++ [cr] :=
    hback.imp (fun hnil => by rw [hnil]; rfl) fun hspace => hspace.trans (List.prefix_append _ _)
  refine isFramed_of_multi h fun line hline => ?_
  have hno : lf ∉ first ++ [cr] := by
    have hlf : lf ∉ first := fun hmem => (hfirst lf hmem).2 rfl
    simp [hlf, show lf ≠ cr by decide]
  have hcut : reply.body ++ [cr] = first ++ [cr] ++ lf :: (rest ++ [cr]) := by simp [hbody, crlf]
  rw [hcut, List.splitOn_append_cons_self_of_not_mem hno, List.tail_cons, splitOn_eq_cons] at hline
  rcases List.mem_cons.mp hline with rfl | hline
  · exact withoutCr_takeWhile (hclosed hstart)
  · obtain ⟨front, back, hsplit, rfl⟩ := mem_tail_splitOn.mp hline
    apply withoutCr_takeWhile
    rcases List.eq_nil_or_concat' back with rfl | ⟨others, last, rfl⟩
    · have hlast := congrArg List.getLast? hsplit
      simp [cr, lf] at hlast
    · have hconcat : rest ++ [cr] = (front ++ lf :: others) ++ [last] := by simp [hsplit]
      obtain ⟨hfront, hlast⟩ := List.append_inj' hconcat rfl
      obtain rfl : cr = last := (List.cons.inj hlast).1
      exact hclosed (hrest front others hfront)

/-- A line end with something else behind it ends the lines too early. -/
theorem not_isFramed {text front back : Bytes} {c : UInt8} (htext : reply.text = text ++ crlf)
    (h : text = front ++ lf :: c :: back) (hcr : c ≠ cr) (hlf : c ≠ lf) (hspace : c ≠ space)
    (hdigit : isDigit c = false) : ¬ reply.IsFramed := by
  rintro ⟨-, -, before, last, hlines, hlast, -, hbetween⟩
  obtain ⟨rest, hmem⟩ := exists_line hcr hlf h
  rw [← htext, hlines] at hmem
  obtain ⟨d, others, hnumber, hd⟩ := number_eq_cons reply
  cases before with
  | nil => cases hmem
  | cons first before =>
      rcases List.mem_append.mp hmem with hmem | hmem
      · rcases hbetween _ hmem with hnil | hprefix
        · cases hnil
        · exact hspace (List.cons_prefix_cons.mp hprefix).1.symm
      · rw [← List.mem_singleton.mp hmem, hnumber, List.cons_append] at hlast
        rw [(List.cons_prefix_cons.mp hlast).1, hdigit] at hd
        cases hd

end IsFramed

end Wfde
