import RelayStar.Spec.Mqtt
import RelayStar.Proof.RemainingLen

/-!
# The MQTT client

What `Mqtt.publish` writes, and when (`publish_eq`). What `Mqtt.readPacket` makes of
the bytes of a packet, whatever its type (`feed_packet`), and that what it returns
is a packet of the stream (`packet_of_feed`); and that `Mqtt.readPublish` reads what
a packet carries from exactly its bytes (`reads_incoming`). Both ways go by the remaining
length, a base-128 integer (`writeRemainingLen_eq`, `feed_stream`).
-/

namespace RelayStar

theorem fromUtf8_asBytes (s : String) : fromUtf8 (asBytes s) = some s := by
  unfold fromUtf8 asBytes String.fromUTF8?
  rw [dif_pos (show ByteArray.IsValidUTF8 ⟨s.toUTF8.data.toList.toArray⟩ from s.isValidUTF8)]
  rfl

theorem asBytes_of_fromUtf8 {bytes : List UInt8} {s : String} (h : fromUtf8 bytes = some s) :
    asBytes s = bytes := by
  unfold fromUtf8 String.fromUTF8? at h
  split at h
  · cases h; rfl
  · cases h

namespace Mqtt

open Wire (putVarint)
open Spec (Packet)

/-! ## Writing -/

theorem fits_append {N : Nat} (v : HVec UInt8 N) (s s' : List UInt8) :
    (fits (v.extendFromSlice s) >>= fun w => fits (w.extendFromSlice s')) = fits (v.extendFromSlice (s ++ s')) := by
  rw [HVec.extendFromSlice_append]
  cases v.extendFromSlice s <;> rfl

/-- An empty buffer takes what is not too long for it. -/
theorem fits_empty {N : Nat} (s : List UInt8) :
    fits ((HVec.empty : HVec UInt8 N).extendFromSlice s) =
      if h : s.length ≤ N then .ok ⟨s, h⟩ else .error .tooLarge := by
  split
  · rename_i h
    rw [show (HVec.empty : HVec UInt8 N).extendFromSlice s = some ⟨s, h⟩ from HVec.extendFromSlice_eq_some.mpr rfl]
    rfl
  · rename_i h
    rw [HVec.extendFromSlice_eq_none.mpr (Nat.lt_of_not_le h)]
    rfl

/-- A frame is written if it fits the buffer. -/
theorem sendFrame_eq (first : UInt8) {content : List UInt8} (h : content.length < 128 ^ 4) :
    sendFrame first content =
      if (first :: (putVarint 4 content.length ++ content)).length ≤ OUT_BUF then
        .ok (first :: (putVarint 4 content.length ++ content))
      else .error .tooLarge := by
  have hfits : sendFrame first content =
      (fits ((HVec.empty : HVec UInt8 OUT_BUF).extendFromSlice
        (first :: (putVarint 4 content.length ++ content)))).map HVec.toList := by
    rw [← List.singleton_append, ← List.append_assoc, ← fits_append, ← fits_append]
    unfold sendFrame
    show (fits ((HVec.empty : HVec UInt8 OUT_BUF).extendFromSlice [first]) >>= _) = _
    cases (HVec.empty : HVec UInt8 OUT_BUF).extendFromSlice [first] with
    | none => rfl
    | some v =>
      show (writeRemainingLen v content.length >>= _) = _
      rw [writeRemainingLen_eq v h (by decide)]
      show _ = Except.map HVec.toList (fits (v.extendFromSlice (putVarint 4 content.length)) >>= _)
      cases v.extendFromSlice (putVarint 4 content.length) with
      | none => rfl
      | some w => cases w.extendFromSlice content <;> rfl
  rw [hfits, fits_empty]
  split
  · rfl
  · rfl

/-- A packet is published if it fits the buffer. -/
theorem publish_eq (topic : String) (payload : List UInt8) :
    let content := beBytes (asBytes topic).length ++ (asBytes topic ++ payload)
    publish topic payload =
      if (0x30 :: (putVarint 4 content.length ++ content)).length ≤ OUT_BUF then
        .ok (0x30 :: (putVarint 4 content.length ++ content))
      else .error .tooLarge := by
  intro content
  have hfits : publish topic payload =
      (fits ((HVec.empty : HVec UInt8 OUT_BUF).extendFromSlice content) >>= fun vh =>
        sendFrame 0x30 vh.toList) := by
    show _ = (fits ((HVec.empty : HVec UInt8 OUT_BUF).extendFromSlice (beBytes (asBytes topic).length ++
      (asBytes topic ++ payload))) >>= _)
    rw [← fits_append, bind_assoc]
    unfold publish
    congr
    funext v
    rw [← fits_append, bind_assoc]
  rw [hfits, fits_empty]
  split
  · rename_i hle
    exact sendFrame_eq 0x30 (Nat.lt_of_le_of_lt hle (by decide))
  · rename_i hle
    rw [if_neg]
    · rfl
    · intro h
      rw [List.length_cons, List.length_append] at h
      omega

/-! ## Reading -/

/-- A packet that fits the buffer is read; of one that does not, only the header
is. -/
theorem feed_packet (p : Packet) (n : Nat) (rest : List UInt8) :
    (readPacket n).feed (p.wire ++ rest) =
      if p.body.length ≤ n then (.done (p.first, p.body), rest) else (.error .tooLarge, p.body ++ rest) := by
  have hlen : (readRemainingLen 4 1 0).feed (p.len ++ (p.body ++ rest)) = (.done p.body.length, p.body ++ rest) := by
    have h := feed_ends (j := 0) p.ends p.length_len rfl 0 (p.body ++ rest)
    rwa [p.value_len, Nat.zero_add, Nat.pow_zero, Nat.mul_one] at h
  show ((readRemainingLen 4 1 0).bind _).feed (p.len ++ p.body ++ rest) = _
  rw [List.append_assoc, Reader.feed_bind, hlen]
  dsimp only
  by_cases hn : p.body.length ≤ n
  · rw [if_pos hn, if_neg (Nat.not_lt.mpr hn)]
    show ((Reader.take p.body.length).bind _).feed (p.body ++ rest) = _
    rw [Reader.feed_bind, (Reader.Reads.take p.body).feed]
    rfl
  · rw [if_neg hn, if_pos (Nat.lt_of_not_le hn)]
    rfl

/-- What is read is the packet that the stream begins with. -/
theorem packet_of_feed {n : Nat} {bytes body rest : List UInt8} {first : UInt8}
    (h : (readPacket n).feed bytes = (.done (first, body), rest)) :
    ∃ p : Packet, p.first = first ∧ p.body = body ∧ bytes = p.wire ++ rest ∧ body.length ≤ n := by
  cases bytes with
  | nil => cases h
  | cons b bytes =>
    replace h : ((readRemainingLen 4 1 0).bind _).feed bytes = (.done (first, body), rest) := h
    rw [Reader.feed_bind] at h
    rcases feed_stream bytes with ⟨ls, rest', rfl, he, hl, hr⟩ | ⟨ls, rest', rfl, hl, hall, hr⟩ | ⟨hl, hall, r, hr⟩
    · rw [hr] at h
      dsimp only at h
      split at h
      · cases h
      · rename_i hn
        replace h : ((Reader.take (Base128.value ls)).bind _).feed rest' = (.done (first, body), rest) := h
        rw [Reader.feed_bind] at h
        split at h
        · rename_i a rest'' hr
          obtain ⟨rfl, hv⟩ := Reader.feed_take hr
          cases h
          exact ⟨⟨first, ls, body, he, hl, hv.symm⟩, rfl, rfl, by rw [Packet.wire, List.cons_append, List.append_assoc],
            by omega⟩
        · cases h
        · cases h
    · rw [hr] at h
      cases h
    · rw [hr] at h
      cases h

/-- A packet is read from exactly its bytes. -/
theorem reads_packet (p : Packet) {n : Nat} (hn : p.body.length ≤ n) :
    (readPacket n).Reads p.wire (p.first, p.body) := by
  have hp := feed_packet p n []
  rwa [if_pos hn, List.append_nil] at hp

theorem beBytes_eq {n : Nat} (h : n < 65536) :
    ∃ hi lo : UInt8, beBytes n = [hi, lo] ∧ hi.toNat * 256 + lo.toNat = n := by
  refine ⟨_, _, rfl, ?_⟩
  rw [UInt8.toNat_ofNat', UInt8.toNat_ofNat']
  omega

/-- What a packet of the broker carries is read from exactly its bytes. -/
theorem reads_incoming (p : Spec.Incoming) {n : Nat} (hn : p.packet.body.length ≤ n) :
    (readPublish n).Reads p.packet.wire p.content := by
  refine Reader.Reads.last (reads_packet p.packet hn) ?_
  obtain ⟨packet, content, hcarries, hother⟩ := p
  cases content with
  | none => exact if_pos (hother rfl)
  | some c =>
    obtain ⟨⟨htype, hbody⟩, htopic⟩ := hcarries c rfl
    obtain ⟨hi, lo, hbe, hlen⟩ := beBytes_eq htopic
    rw [hbe] at hbody
    dsimp only
    rw [if_neg (not_not.mpr htype), hbody]
    dsimp only [List.cons_append, List.nil_append]
    rw [hlen, if_neg (by rw [List.length_append]; omega), List.take_left, List.drop_left, fromUtf8_asBytes]
    rfl

theorem reads_publish (p : Spec.Publish) {n : Nat} (hn : p.body.length ≤ n) (h : p.body.length < 128 ^ 4) :
    (readPublish n).Reads p.wire (some p.content) :=
  reads_incoming (.ofPublish p h) hn

end Mqtt

end RelayStar
