import StubResolver.Proofs.Message.RoundTrip
import StubResolver.Transport.Basic

/-!
# Checking responses

A response belongs to a request if both begin with the same two octets, which are the
ID. One that is shorter than a header does not belong to any.
-/

namespace StubResolver

open Name

variable {request request' response octets : Octets} {id : UInt16}

theorem messageId?_eq_some_iff :
    messageId? octets = some id ↔ StandsAt octets 0 (Wire.octets16 id) := by
  rw [Wire.octets16, standsAt_pair]
  unfold messageId?
  cases octets[0]? with
  | none => simp
  | some high =>
      cases octets[1]? with
      | none => simp
      | some low =>
          have hjoin : Wire.join16 high low = id ↔ [high, low] = Wire.octets16 id := by
            rw [← Wire.octets16_join16, Wire.octets16_injective.eq_iff]
          simpa [Wire.octets16] using hjoin

theorem messageId?_of_standsAt {header : Header} (h : StandsAt octets 0 header.octets) :
    messageId? octets = some header.id :=
  messageId?_eq_some_iff.2 (standsAt_append_iff.1 h).1

theorem Request.messageId?_octets (r : Request) :
    messageId? r.octets.toArray = some r.header.id := by
  have hstands : StandsAt r.octets.toArray 0 r.octets := List.prefix_rfl
  exact messageId?_of_standsAt (standsAt_append_iff.1 hstands).1

theorem checkResponse_of_id_eq (h : messageId? request = messageId? request') (response : Octets) :
    checkResponse request response = checkResponse request' response := by
  unfold checkResponse
  rw [h]

theorem eq_of_checkResponse (h : checkResponse request response = .ok octets) :
    octets = response := by
  unfold checkResponse at h
  grind

theorem messageId?_of_checked (h : checkResponse request response = .ok response) :
    messageId? response = messageId? request := by
  unfold checkResponse at h
  split at h
  · cases h
  · split at h
    · rename_i expected received hexpected hreceived
      split at h
      · rename_i hsame
        rw [hexpected, hreceived, hsame]
      · cases h
    · cases h

/-! ## What becomes of a response -/

theorem exists_messageId? (hlong : headerLength ≤ response.size) :
    ∃ received, messageId? response = some received := by
  have hsize : 12 ≤ response.size := hlong
  unfold messageId?
  rw [Array.getElem?_eq_getElem (show 0 < response.size by omega),
    Array.getElem?_eq_getElem (show 1 < response.size by omega)]
  exact ⟨_, rfl⟩

theorem checkResponse_of_long {received : UInt16} (hid : messageId? request = some id)
    (hreceived : messageId? response = some received) (hlong : headerLength ≤ response.size) :
    checkResponse request response =
      if id = received then .ok response else .error (.idMismatch id received) := by
  rw [checkResponse, if_neg (Nat.not_lt.2 hlong), hid, hreceived]

section

variable (hid : messageId? request = some id)
include hid

theorem checkResponse_eq_ok_iff : checkResponse request response = .ok octets ↔
    octets = response ∧ headerLength ≤ response.size ∧ messageId? response = some id := by
  by_cases hshort : response.size < headerLength
  · simp [checkResponse, hshort]
  · have hlong := Nat.not_lt.1 hshort
    obtain ⟨received, hreceived⟩ := exists_messageId? hlong
    rw [checkResponse_of_long hid hreceived hlong, hreceived]
    split <;> grind

theorem checkResponse_eq_shortMessage_iff :
    checkResponse request response = .error .shortMessage ↔ response.size < headerLength := by
  by_cases hshort : response.size < headerLength
  · simp [checkResponse, hshort]
  · have hlong := Nat.not_lt.1 hshort
    obtain ⟨received, hreceived⟩ := exists_messageId? hlong
    rw [checkResponse_of_long hid hreceived hlong]
    split <;> simp [hshort]

theorem checkResponse_eq_idMismatch_iff {expected received : UInt16} :
    checkResponse request response = .error (.idMismatch expected received) ↔
      expected = id ∧ received ≠ id ∧ headerLength ≤ response.size ∧
        messageId? response = some received := by
  by_cases hshort : response.size < headerLength
  · simp [checkResponse, hshort]
  · have hlong := Nat.not_lt.1 hshort
    obtain ⟨received', hreceived⟩ := exists_messageId? hlong
    rw [checkResponse_of_long hid hreceived hlong, hreceived]
    split <;> grind

end

end StubResolver
