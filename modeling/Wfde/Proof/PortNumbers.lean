import Wfde.Proof.Decimal
import Wfde.Proof.HandlerErrors

/-!
# The numbers of PORT and PASV

PORT takes each of the four numbers of the address up to 255 and throws on a greater one; of the two
numbers of the port it takes the lowest eight bits. It reads what PASV prints as the endpoint it has
been printed for.
-/

namespace Wfde

open Effect FtpSession

section Port

def portNumbers (param : Bytes) : List Nat := (param.splitOn 44).map ofDigits

/-- The group has no superfluous leading zero. -/
def Shortest (group : Bytes) : Prop := group.length = 1 ∨ group.headD 0 ≠ 48

instance (group : Bytes) : Decidable (Shortest group) := inferInstanceAs (Decidable (_ ∨ _))

def endpointOf (numbers : List Nat) : Endpoint :=
  ⟨numbers.take 4, numbers.getD 4 0 * 256 + numbers.getD 5 0⟩

/-- Numbers up to 255 become the endpoint for PORT. If one is greater, an error is replied, the session
goes on and nothing of its state has changed. -/
structure DecodesExactly (ftp : FtpSession) (param : Bytes) : Prop where
  inRange : (∀ n ∈ portNumbers param, n ≤ 255) →
    (FtpCmdPort.onCmd param).run ftp = .ok (some { code := .ok })
      { ftp with state := ftp.state.setPort (endpointOf (portNumbers param)) }
  outOfRange : (∃ n ∈ portNumbers param, 255 < n) →
    ∃ reply left, (FtpCmdPort.onCmd param).run ftp = .ok (some reply) left
      ∧ reply.isError = true ∧ reply.endSession = false ∧ left.state = ftp.state

variable {ftp : FtpSession} {param : Bytes}

theorem makeAddressV4_eq {groups : List Bytes} (h : ∀ group ∈ groups, Shortest group) :
    FtpCmdPort.makeAddressV4 groups
      = if ∀ group ∈ groups, ofDigits group ≤ 255 then some (groups.map ofDigits) else none := by
  unfold FtpCmdPort.makeAddressV4
  refine if_congr ?_ rfl rfl
  rw [List.all_eq_true]
  refine forall₂_congr fun group hgroup => ?_
  have hshortest : (group.length == 1 || group.headD 0 != 48) = true := by
    simpa [Shortest] using h group hgroup
  rw [hshortest, Bool.and_true, decide_eq_true_eq]

theorem run_port_of_some {address : List Nat}
    (h : FtpCmdPort.makeAddressV4 ((param.splitOn 44).take 4) = some address) :
    (FtpCmdPort.onCmd param).run ftp = .ok (some { code := .ok })
      { ftp with
        state := ftp.state.setPort
          ⟨address, ofDigits ((param.splitOn 44).getD 4 []) % 256 * 256
            + ofDigits ((param.splitOn 44).getD 5 []) % 256⟩ } := by
  unfold FtpCmdPort.onCmd
  dsimp only
  rw [h]
  rfl

theorem run_port_of_none (h : FtpCmdPort.makeAddressV4 ((param.splitOn 44).take 4) = none) :
    (FtpCmdPort.onCmd param).run ftp = .error .systemError ftp := by
  unfold FtpCmdPort.onCmd
  dsimp only
  rw [h]
  rfl

/-- An error is never replied: the handler replies 200 or throws. -/
theorem port_replies {reply : FtpReply} {left : FtpSession}
    (h : (FtpCmdPort.onCmd param).run ftp = .ok (some reply) left) : reply = { code := .ok } := by
  cases haddress : FtpCmdPort.makeAddressV4 ((param.splitOn 44).take 4) with
  | none =>
      rw [run_port_of_none haddress] at h
      cases h
  | some address =>
      rw [run_port_of_some haddress] at h
      cases h
      rfl

theorem getD_portNumbers (param : Bytes) (i : Nat) :
    (portNumbers param).getD i 0 = ofDigits ((param.splitOn 44).getD i []) := by
  rw [portNumbers, List.getD_eq_getElem?_getD, List.getD_eq_getElem?_getD, List.getElem?_map]
  cases (param.splitOn 44)[i]? with
  | none => rfl
  | some group => rfl

theorem run_port_inRange (hshortest : ∀ group ∈ param.splitOn 44, Shortest group)
    (h : ∀ n ∈ portNumbers param, n ≤ 255) :
    (FtpCmdPort.onCmd param).run ftp = .ok (some { code := .ok })
      { ftp with state := ftp.state.setPort (endpointOf (portNumbers param)) } := by
  have haddress : FtpCmdPort.makeAddressV4 ((param.splitOn 44).take 4)
      = some ((portNumbers param).take 4) := by
    rw [makeAddressV4_eq fun group hgroup => hshortest group (List.mem_of_mem_take hgroup),
      portNumbers, List.map_take]
    refine if_pos fun group hgroup => h _ ?_
    exact List.mem_map_of_mem (List.mem_of_mem_take hgroup)
  have hbound : ∀ i, (portNumbers param).getD i 0 < 256 := by
    intro i
    rw [List.getD_eq_getElem?_getD]
    cases hnumber : (portNumbers param)[i]? with
    | none => simp
    | some n =>
        have hle := h n (List.mem_of_getElem? hnumber)
        rw [Option.getD_some]
        omega
  rw [run_port_of_some haddress, ← getD_portNumbers, ← getD_portNumbers,
    Nat.mod_eq_of_lt (hbound 4), Nat.mod_eq_of_lt (hbound 5)]
  rfl

theorem not_decodesExactly {n : Nat} (hn : n ∈ portNumbers param) (hlarge : 255 < n) :
    ¬ DecodesExactly ftp param := by
  intro h
  obtain ⟨reply, left, hrun, herror, -⟩ := h.outOfRange ⟨n, hn, hlarge⟩
  rw [port_replies hrun] at herror
  exact absurd herror (by decide)

/-- A number of the address above 255 ends the session. -/
theorem handle_port_of_octet {env : Env} (hcan : ftp.canReply = true)
    (hshortest : ∀ group ∈ param.splitOn 44, Shortest group)
    {n : Nat} (hn : n ∈ (portNumbers param).take 4) (hlarge : 255 < n) :
    after (handle env .port param) ftp
      = { ftp with
          calls := []
          replies := ftp.replies ++ [{ code := .bye, message := bytes "Internal server error" }]
          control := .replying .closePending } := by
  have haddress : FtpCmdPort.makeAddressV4 ((param.splitOn 44).take 4) = none := by
    rw [makeAddressV4_eq fun group hgroup => hshortest group (List.mem_of_mem_take hgroup), if_neg]
    intro hall
    rw [portNumbers, ← List.map_take] at hn
    obtain ⟨group, hgroup, rfl⟩ := List.mem_map.mp hn
    exact absurd (hall group hgroup) (by omega)
  have hrun : (FtpCmd.port.onCmd env param).run { ftp with calls := [] }
      = .error .systemError { ftp with calls := [] } :=
    run_port_of_none haddress
  have hhandle : after (handle env .port param) ftp
      = after (controlReply env { code := .bye, message := bytes "Internal server error" }
          .closePending) { ftp with calls := [] } := by
    rw [after_handle, Handled.result, Handled.start, hrun]
  have hstart : { ftp with calls := [] }.canReply = true := hcan
  rw [hhandle, controlReply_of_canReply hstart]

end Port

section Pasv

structure Endpoint.IsV4 (endpoint : Endpoint) : Prop where
  octets : endpoint.address.length = 4
  octet_le : ∀ n ∈ endpoint.address, n ≤ 255
  port_lt : endpoint.port < 2 ^ 16

/-- The six numbers between the brackets of the reply. -/
def sixNumbers (endpoint : Endpoint) : List Nat :=
  endpoint.address ++ [endpoint.port / 256 % 256, endpoint.port % 256]

def sixNumbersText (endpoint : Endpoint) : Bytes := [44].intercalate ((sixNumbers endpoint).map decimal)

variable {env : Env} {ftp left : FtpSession} {endpoint : Endpoint}

theorem run_pasv (hopen : (openAcceptor env).run ftp = .ok () left)
    (hlisten : left.state.pasv = some ⟨true, endpoint⟩) :
    (FtpCmdPasv.onCmd env).run ftp
      = .ok (some
          { code := .passive
            message := bytes "Entering Passive Mode (" ++ sixNumbersText endpoint ++ bytes ")" })
        { left with state := left.state.setPasv } := by
  rw [FtpCmdPasv.onCmd, run_bind_of_ok hopen]
  rw [run_bind_of_ok (show getState.run left = .ok left.state left from rfl), hlisten]
  rfl

theorem not_mem_decimal (n : Nat) : (44 : UInt8) ∉ decimal n := fun h =>
  absurd (isDigit_of_mem_decimal h) (by decide)

theorem splitOn_sixNumbersText (endpoint : Endpoint) :
    (sixNumbersText endpoint).splitOn 44 = (sixNumbers endpoint).map decimal := by
  refine List.splitOn_intercalate 44 ?_ ?_
  · intro group hgroup
    obtain ⟨n, -, rfl⟩ := List.mem_map.mp hgroup
    exact not_mem_decimal n
  · simp [sixNumbers]

theorem portNumbers_sixNumbersText (endpoint : Endpoint) :
    portNumbers (sixNumbersText endpoint) = sixNumbers endpoint := by
  rw [portNumbers, splitOn_sixNumbersText, List.map_map]
  conv_rhs => rw [← List.map_id (sixNumbers endpoint)]
  exact List.map_congr_left fun n _ => ofDigits_decimal n

theorem shortest_decimal (n : Nat) : Shortest (decimal n) := by
  by_cases hzero : n = 0
  · subst hzero
    exact Or.inl rfl
  · exact Or.inr (headD_decimal (Nat.pos_of_ne_zero hzero))

theorem Endpoint.IsV4.le_of_mem (h : endpoint.IsV4) {n : Nat} (hn : n ∈ sixNumbers endpoint) :
    n ≤ 255 := by
  rcases List.mem_append.mp hn with hn | hn
  · exact h.octet_le n hn
  · have hport : n = endpoint.port / 256 % 256 ∨ n = endpoint.port % 256 := by simpa using hn
    omega

theorem Endpoint.IsV4.endpointOf_sixNumbers (h : endpoint.IsV4) :
    endpointOf (sixNumbers endpoint) = endpoint := by
  obtain ⟨address, port⟩ := endpoint
  obtain ⟨hlength, -, hport⟩ := h
  dsimp only at hlength hport
  have hhigh : (sixNumbers ⟨address, port⟩).getD 4 0 = port / 256 % 256 := by
    simp [sixNumbers, List.getD_eq_getElem?_getD, hlength]
  have hlow : (sixNumbers ⟨address, port⟩).getD 5 0 = port % 256 := by
    simp [sixNumbers, List.getD_eq_getElem?_getD, hlength]
  have hport' : port / 256 % 256 * 256 + port % 256 = port := by omega
  rw [endpointOf, hhigh, hlow, hport', sixNumbers, ← hlength, List.take_left]

theorem Endpoint.IsV4.matches_sixNumbersText (h : endpoint.IsV4) :
    ParamSyntax.port.matches (sixNumbersText endpoint) = true := by
  have hlength : (sixNumbers endpoint).length = 6 := by simp [sixNumbers, h.octets]
  simp only [ParamSyntax.matches, splitOn_sixNumbersText, List.length_map, hlength, beq_self_eq_true,
    Bool.true_and, List.all_map, List.all_eq_true]
  intro n hn
  have hsize : (decimal n).length ≤ 3 :=
    (length_decimal_le (by decide)).mpr (by have := h.le_of_mem hn; omega)
  have hdigits : (decimal n).all isDigit = true :=
    List.all_eq_true.mpr fun c hc => isDigit_of_mem_decimal hc
  simp [decimal_ne_nil, hsize, hdigits]

end Pasv

/-- **PORT and PASV.** A parameter of PORT is decoded as it should if and only if all six numbers are at
most 255. The six numbers of a reply to PASV are a parameter of PORT, and PORT gets the endpoint of
the reply from them. -/
theorem port_decodes_iff (ftp : FtpSession) :
    (∀ param : Bytes, ParamSyntax.port.matches param = true →
        (∀ group ∈ param.splitOn 44, Shortest group) →
        (DecodesExactly ftp param ↔ ∀ n ∈ portNumbers param, n ≤ 255))
      ∧ ∀ (env : Env) (left : FtpSession) (endpoint : Endpoint),
        (openAcceptor env).run ftp = .ok () left → left.state.pasv = some ⟨true, endpoint⟩ →
        endpoint.IsV4 →
        ∃ six : Bytes,
          (FtpCmdPasv.onCmd env).run ftp
              = .ok (some
                  { code := .passive
                    message := bytes "Entering Passive Mode (" ++ six ++ bytes ")" })
                { left with state := left.state.setPasv }
            ∧ ParamSyntax.port.matches six = true
            ∧ ∀ other : FtpSession, (FtpCmdPort.onCmd six).run other
              = .ok (some { code := .ok }) { other with state := other.state.setPort endpoint } := by
  constructor
  · intro param _ hshortest
    constructor
    · intro h n hn
      by_contra hlarge
      exact not_decodesExactly hn (by omega) h
    · intro h
      refine ⟨fun _ => run_port_inRange hshortest h, ?_⟩
      rintro ⟨n, hn, hlarge⟩
      exact absurd (h n hn) (by omega)
  · intro env left endpoint hopen hlisten hv4
    refine ⟨sixNumbersText endpoint, run_pasv hopen hlisten, hv4.matches_sixNumbersText, ?_⟩
    intro other
    have hshortest : ∀ group ∈ (sixNumbersText endpoint).splitOn 44, Shortest group := by
      intro group hgroup
      rw [splitOn_sixNumbersText] at hgroup
      obtain ⟨n, -, rfl⟩ := List.mem_map.mp hgroup
      exact shortest_decimal n
    have hrange : ∀ n ∈ portNumbers (sixNumbersText endpoint), n ≤ 255 := by
      rw [portNumbers_sixNumbersText]
      exact fun n hn => hv4.le_of_mem hn
    rw [run_port_inRange hshortest hrange, portNumbers_sixNumbersText, hv4.endpointOf_sixNumbers]

def listener : FtpSession :=
  { session := { permissions := .empty }
    disk := { files := { node := fun _ => none, refuses := fun _ _ => false }, performed := [] }
    segmentSize := 4096
    state := { isLoggedIn := true } }

def loopback : Env := { listen := some ⟨[127, 0, 0, 1], 1025⟩ }

theorem port_decodes_iff_loopback :
    (DecodesExactly listener (bytes "127,0,0,1,4,1")
        ↔ ∀ n ∈ portNumbers (bytes "127,0,0,1,4,1"), n ≤ 255)
      ∧ ∃ six : Bytes,
        (FtpCmdPasv.onCmd loopback).run listener
            = .ok (some
                { code := .passive
                  message := bytes "Entering Passive Mode (" ++ six ++ bytes ")" })
              { after (openAcceptor loopback) listener with
                state := (after (openAcceptor loopback) listener).state.setPasv }
          ∧ ParamSyntax.port.matches six = true
          ∧ ∀ other : FtpSession, (FtpCmdPort.onCmd six).run other
            = .ok (some { code := .ok })
              { other with state := other.state.setPort ⟨[127, 0, 0, 1], 1025⟩ } :=
  ⟨(port_decodes_iff listener).1 (bytes "127,0,0,1,4,1") (by decide +kernel) (by decide +kernel),
    (port_decodes_iff listener).2 loopback (after (openAcceptor loopback) listener)
      ⟨[127, 0, 0, 1], 1025⟩ rfl rfl ⟨rfl, by decide, by decide⟩⟩

/-- The port 256 * 256 + 0 is taken for the port 0. -/
theorem not_decodesExactly_port : ¬ DecodesExactly listener (bytes "127,0,0,1,256,0") :=
  not_decodesExactly (by decide +kernel : 256 ∈ portNumbers (bytes "127,0,0,1,256,0")) (by decide)

end Wfde
