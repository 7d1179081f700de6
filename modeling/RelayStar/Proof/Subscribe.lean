import RelayStar.Proof.Mqtt

/-!
# Subscribing

`subscribe` looks at the type of the packet that answers it and at nothing else
(`subscribeOn_packet`). Where that packet is a `SUBACK` of at most 16 bytes that
does not grant the subscription, the call succeeds all the same
(`refused_subscription`); on any other stream it returns as its documentation
says (`confirmed_iff`).
-/

namespace RelayStar.Mqtt

open Wire (putVarint)
open Spec (Packet)

/-- The packet is written if the topic is not too long. -/
theorem subscribe_eq (topic : String) (packetId : UInt16) :
    let content := beBytes packetId.toNat ++ (beBytes (asBytes topic).length ++ (asBytes topic ++ [0x00]))
    subscribe topic packetId =
      if (asBytes topic).length ≤ 123 then .ok (0x82 :: (putVarint 4 content.length ++ content), readSuback)
      else .error .tooLarge := by
  intro content
  have hlen : content.length = (asBytes topic).length + 5 := by
    simp only [content, List.length_append, beBytes, List.length_cons, List.length_nil]
    omega
  have hfits : subscribe topic packetId =
      (fits ((HVec.empty : HVec UInt8 128).extendFromSlice content) >>= fun vh =>
        (sendFrame 0x82 vh.toList).map fun frame => (frame, readSuback)) := by
    simp only [content]
    rw [← fits_append, bind_assoc]
    unfold subscribe
    congr
    funext v
    rw [← fits_append, bind_assoc]
    congr
    funext v
    rw [← fits_append, bind_assoc]
    rfl
  rw [hfits, fits_empty]
  by_cases hle : (asBytes topic).length ≤ 123
  · rw [if_pos hle, dif_pos (show content.length ≤ 128 by omega)]
    show (sendFrame 0x82 content).map _ = _
    rw [sendFrame_eq 0x82 (by omega), if_pos]
    · rfl
    · have hput := Wire.length_putVarint_le 4 content.length
      rw [List.length_cons, List.length_append, OUT_BUF]
      omega
  · rw [if_neg hle, dif_neg (show ¬ content.length ≤ 128 by omega)]
    rfl

/-- The call returns by the type of the first packet alone. -/
theorem subscribeOn_packet (topic : String) (packetId : UInt16) (h : (asBytes topic).length ≤ 123) (p : Packet)
    (rest : List UInt8) :
    subscribeOn topic packetId (p.wire ++ rest) =
      if p.body.length ≤ 16 then
        if p.first >>> 4 = 9 then some (.ok ()) else some (.error .protocol)
      else some (.error .tooLarge) := by
  rw [subscribeOn, subscribe_eq, if_pos h]
  show ((Reader.bind (readPacket 16) _).feed (p.wire ++ rest)).1.result = _
  rw [Reader.feed_bind, feed_packet]
  by_cases hn : p.body.length ≤ 16
  · rw [if_pos hn, if_pos hn]
    dsimp only
    by_cases hf : p.first >>> 4 = 9
    · rw [if_pos hf, if_neg (not_not.mpr hf)]
      rfl
    · rw [if_neg hf, if_pos hf]
      rfl
  · rw [if_neg hn, if_neg hn]
    rfl

/-- A call that succeeds has found a `SUBACK`. -/
theorem suback_of_ok {topic : String} {packetId : UInt16} {stream : List UInt8}
    (h : subscribeOn topic packetId stream = some (.ok ())) :
    (asBytes topic).length ≤ 123 ∧
      ∃ (p : Packet) (rest : List UInt8), stream = p.wire ++ rest ∧ p.first >>> 4 = 9 ∧ p.body.length ≤ 16 := by
  have hle : (asBytes topic).length ≤ 123 := by
    by_contra hle
    rw [subscribeOn, subscribe_eq, if_neg hle] at h
    cases h
  have hread : ∃ x rest, (readPacket 16).feed stream = (.done x, rest) := by
    rw [subscribeOn, subscribe_eq, if_pos hle] at h
    replace h : ((Reader.bind (readPacket 16) _).feed stream).1.result = some (.ok ()) := h
    rw [Reader.feed_bind] at h
    split at h
    · exact ⟨_, _, by assumption⟩
    · cases h
    · cases h
  obtain ⟨⟨first, body⟩, rest, hr⟩ := hread
  obtain ⟨p, rfl, rfl, rfl, hn⟩ := packet_of_feed hr
  rw [subscribeOn_packet topic packetId hle, if_pos hn] at h
  refine ⟨hle, p, rest, rfl, ?_, hn⟩
  by_contra hf
  rw [if_neg hf] at h
  cases h

/-- A call returns `Ok` only on a `SUBACK` that grants this subscription, and
with an error on one that does not. -/
def Confirmed (topic : String) (packetId : UInt16) (stream : List UInt8) : Prop :=
  (subscribeOn topic packetId stream = some (.ok ()) →
    ∃ (p : Packet) (rest : List UInt8), stream = p.wire ++ rest ∧ p.Grants packetId) ∧
  ∀ (p : Packet) (rest : List UInt8), stream = p.wire ++ rest → p.first >>> 4 = 9 → ¬ p.Grants packetId →
    ∃ e, subscribeOn topic packetId stream = some (.error e)

/-- The stream begins with a `SUBACK` that fits its buffer and does not grant this
subscription. -/
def Refused (packetId : UInt16) (stream : List UInt8) : Prop :=
  ∃ (p : Packet) (rest : List UInt8),
    stream = p.wire ++ rest ∧ p.first >>> 4 = 9 ∧ p.body.length ≤ 16 ∧ ¬ p.Grants packetId

/-- The call returns as it should unless the topic can be sent and the answer is a
refusal. -/
theorem confirmed_iff (topic : String) (packetId : UInt16) (stream : List UInt8) :
    Confirmed topic packetId stream ↔ ¬ ((asBytes topic).length ≤ 123 ∧ Refused packetId stream) := by
  constructor
  · rintro ⟨-, herr⟩ ⟨hle, p, rest, rfl, hf, hn, hg⟩
    obtain ⟨e, he⟩ := herr p rest rfl hf hg
    rw [subscribeOn_packet topic packetId hle, if_pos hn, if_pos hf] at he
    cases he
  · intro hnot
    constructor
    · intro hok
      obtain ⟨hle, p, rest, rfl, hf, hn⟩ := suback_of_ok hok
      by_contra hg
      exact hnot ⟨hle, p, rest, rfl, hf, hn, fun h => hg ⟨p, rest, rfl, h⟩⟩
    · rintro p rest rfl hf hg
      by_cases hle : (asBytes topic).length ≤ 123
      · have hn : ¬ p.body.length ≤ 16 := fun hn => hnot ⟨hle, p, rest, rfl, hf, hn, hg⟩
        rw [subscribeOn_packet topic packetId hle, if_neg hn]
        exact ⟨_, rfl⟩
      · rw [subscribeOn, subscribe_eq, if_neg hle]
        exact ⟨_, rfl⟩

/-- A `SUBACK` for packet 1 that reports failure. -/
def refusal : Packet := ⟨0x90, [3], [0, 1, 0x80], by decide, by decide, by decide⟩

/-- The call succeeds on it. -/
theorem refused_subscription : subscribeOn "t" 1 refusal.wire = some (.ok ()) ∧ ¬ Confirmed "t" 1 refusal.wire := by
  have hok : subscribeOn "t" 1 refusal.wire = some (.ok ()) := by
    rw [← List.append_nil refusal.wire, subscribeOn_packet "t" 1 (by decide +kernel)]
    rfl
  refine ⟨hok, fun h => ?_⟩
  have hg : ¬ refusal.Grants 1 := by
    rintro ⟨-, code, more, hbody, hcode⟩
    have hthird : some 0x80 = some code := congrArg (fun bytes => bytes[2]?) hbody
    exact hcode (Option.some.inj hthird).symm
  obtain ⟨e, he⟩ := h.2 refusal [] (List.append_nil _).symm rfl hg
  rw [hok] at he
  cases he

end RelayStar.Mqtt
