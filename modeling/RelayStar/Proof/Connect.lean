import RelayStar.Proof.Subscribe

/-!
# Connecting

`connect` writes one packet, if the client identifier fits its buffer
(`connect_eq`), and looks at the type of the packet that answers it and at the
return code (`feed_readConnack`): it succeeds on exactly the streams that begin
with a `CONNACK` that accepts, and is refused on those with one that rejects
(`connect_exact`).
-/

namespace RelayStar.Mqtt

open Spec (Packet)

/-- The packet is written if the client identifier is not too long. -/
theorem connect_eq (clientId : String) (keepaliveSecs : UInt16) :
    connect clientId keepaliveSecs =
      if (asBytes clientId).length ≤ 52 then .ok (Spec.connect clientId keepaliveSecs, readConnack)
      else .error .tooLarge := by
  let content : List UInt8 := [0, 4, 0x4D, 0x51, 0x54, 0x54, 0x04, 0x02] ++
    (beBytes keepaliveSecs.toNat ++ (beBytes (asBytes clientId).length ++ asBytes clientId))
  have hlen : content.length = (asBytes clientId).length + 12 := by
    simp only [content, List.length_append, beBytes, List.length_cons, List.length_nil]
    omega
  have hfits : connect clientId keepaliveSecs =
      (fits ((HVec.empty : HVec UInt8 64).extendFromSlice content) >>= fun vh =>
        (sendFrame 0x10 vh.toList).map fun frame => (frame, readConnack)) := by
    simp only [content]
    rw [← fits_append, bind_assoc]
    unfold connect
    congr
    funext v
    rw [← fits_append, bind_assoc]
    congr
    funext v
    rw [← fits_append, bind_assoc]
    rfl
  rw [hfits, fits_empty]
  by_cases hle : (asBytes clientId).length ≤ 52
  · rw [if_pos hle, dif_pos (show content.length ≤ 64 by omega)]
    show (sendFrame 0x10 content).map _ = _
    rw [sendFrame_eq 0x10 (by omega), if_pos]
    · rfl
    · have hput := Wire.length_putVarint_le 4 content.length
      rw [List.length_cons, List.length_append, OUT_BUF]
      omega
  · rw [if_neg hle, dif_neg (show ¬ content.length ≤ 64 by omega)]
    rfl

/-! ## The answer -/

/-- What is made of a packet that fits the buffer. -/
theorem feed_readConnack (p : Packet) (rest : List UInt8) :
    readConnack.feed (p.wire ++ rest) =
      if p.body.length ≤ 8 then
        if p.first >>> 4 ≠ 0x02 ∨ p.body.length < 2 then (.error .protocol, rest)
        else if p.body[1]? ≠ some 0x00 then (.error .rejected, rest)
        else (.done (), rest)
      else (.error .tooLarge, p.body ++ rest) := by
  show ((readPacket 8).bind _).feed (p.wire ++ rest) = _
  rw [Reader.feed_bind, feed_packet]
  by_cases hn : p.body.length ≤ 8
  · rw [if_pos hn, if_pos hn]
    dsimp only
    split
    · rfl
    · split <;> rfl
  · rw [if_neg hn, if_neg hn]

/-- Reading a packet is not how a connection is rejected. -/
theorem feed_readPacket_ne_rejected (n : Nat) (bytes rest : List UInt8) :
    (readPacket n).feed bytes ≠ (.error Mqtt311Error.rejected, rest) := by
  cases bytes with
  | nil => exact fun h => by cases h
  | cons b bytes =>
    intro h
    replace h : ((readRemainingLen 4 1 0).bind _).feed bytes = (.error Mqtt311Error.rejected, rest) := h
    rw [Reader.feed_bind] at h
    rcases feed_stream bytes with ⟨ls, rest', -, -, -, hr⟩ | ⟨ls, rest', -, -, -, hr⟩ | ⟨-, -, r, hr⟩
    · rw [hr] at h
      dsimp only at h
      split at h
      · cases h
      · replace h : ((Reader.take (Base128.value ls)).bind _).feed rest' = (.error Mqtt311Error.rejected, rest) := h
        rw [Reader.feed_bind] at h
        split at h
        · cases h
        · rename_i hr
          exact Reader.feed_take_ne_error hr
        · cases h
    · rw [hr] at h
      cases h
    · rw [hr] at h
      cases h

/-- A reader of what is in a packet is done with a packet, and rejects one. -/
theorem packet_of_bind {α : Type} {n : Nat} {f : UInt8 × List UInt8 → Reader Mqtt311Error α} {bytes rest : List UInt8}
    {r : Reader Mqtt311Error α} (h : ((readPacket n).bind f).feed bytes = (r, rest))
    (hr : (∃ a, r = .done a) ∨ r = .error .rejected) :
    ∃ (p : Packet) (rest' : List UInt8), bytes = p.wire ++ rest' ∧ p.body.length ≤ n ∧
      (f (p.first, p.body)).feed rest' = (r, rest) := by
  rw [Reader.feed_bind] at h
  split at h
  · rename_i x rest' hx
    obtain ⟨first, body⟩ := x
    obtain ⟨p, rfl, rfl, rfl, hn⟩ := packet_of_feed hx
    exact ⟨p, rest', rfl, hn, h⟩
  · rename_i e rest' he
    cases h
    rcases hr with ⟨a, ha⟩ | hr
    · cases ha
    · cases hr
      exact (feed_readPacket_ne_rejected _ _ _ he).elim
  · cases h
    rcases hr with ⟨a, ha⟩ | hr
    · cases ha
    · cases hr

theorem bytes_one {bytes : List UInt8} (h : 2 ≤ bytes.length) :
    ∃ flags code more, bytes = flags :: code :: more ∧ bytes[1]? = some code := by
  match bytes with
  | [] => simp at h
  | [_] => simp at h
  | flags :: code :: more => exact ⟨flags, code, more, rfl, rfl⟩

/-- The answer is a `CONNACK` that accepts. -/
theorem accepts_of_done {bytes rest : List UInt8} (h : readConnack.feed bytes = (.done (), rest)) :
    ∃ p : Packet, bytes = p.wire ++ rest ∧ p.body.length ≤ 8 ∧ p.Accepts := by
  obtain ⟨p, rest', rfl, hn, -⟩ := packet_of_bind h (.inl ⟨(), rfl⟩)
  rw [feed_readConnack, if_pos hn] at h
  split at h
  · cases h
  · rename_i hf
    rw [not_or, not_not, Nat.not_lt] at hf
    obtain ⟨flags, code, more, hbody, hcode⟩ := bytes_one hf.2
    rw [hcode] at h
    split at h
    · cases h
    · rename_i hzero
      cases h
      rw [Option.some.inj (not_not.mp hzero)] at hbody
      exact ⟨p, rfl, hn, hf.1, flags, more, hbody⟩

/-- The answer is a `CONNACK` that rejects. -/
theorem rejects_of_rejected {bytes rest : List UInt8} (h : readConnack.feed bytes = (.error .rejected, rest)) :
    ∃ p : Packet, bytes = p.wire ++ rest ∧ p.body.length ≤ 8 ∧ p.Rejects := by
  obtain ⟨p, rest', rfl, hn, -⟩ := packet_of_bind h (.inr rfl)
  rw [feed_readConnack, if_pos hn] at h
  split at h
  · cases h
  · rename_i hf
    rw [not_or, not_not, Nat.not_lt] at hf
    obtain ⟨flags, code, more, hbody, hcode⟩ := bytes_one hf.2
    rw [hcode] at h
    split at h
    · rename_i hne
      cases h
      exact ⟨p, rfl, hn, hf.1, flags, code, more, hbody, fun e => hne (congrArg some e)⟩
    · cases h

/-- How a call of `connect` returns on this stream from the broker, if it does. -/
def connectOn (clientId : String) (keepaliveSecs : UInt16) (stream : List UInt8) : Option (Except Mqtt311Error Unit) :=
  match connect clientId keepaliveSecs with
  | .error e => some (.error e)
  | .ok (_, reader) => (reader.feed stream).1.result

theorem connectOn_eq (clientId : String) (keepaliveSecs : UInt16) (stream : List UInt8) :
    connectOn clientId keepaliveSecs stream =
      if (asBytes clientId).length ≤ 52 then (readConnack.feed stream).1.result else some (.error .tooLarge) := by
  rw [connectOn, connect_eq]
  by_cases hle : (asBytes clientId).length ≤ 52
  · rw [if_pos hle, if_pos hle]
  · rw [if_neg hle, if_neg hle]

/-- The call succeeds exactly if the client identifier can be sent and the stream
begins with a `CONNACK` of at most 8 bytes that accepts, and says that the broker
has refused exactly if it begins with one that rejects. -/
theorem connect_exact (clientId : String) (keepaliveSecs : UInt16) (stream : List UInt8) :
    (connectOn clientId keepaliveSecs stream = some (.ok ()) ↔ (asBytes clientId).length ≤ 52 ∧
      ∃ (p : Packet) (rest : List UInt8), stream = p.wire ++ rest ∧ p.body.length ≤ 8 ∧ p.Accepts) ∧
    (connectOn clientId keepaliveSecs stream = some (.error .rejected) ↔ (asBytes clientId).length ≤ 52 ∧
      ∃ (p : Packet) (rest : List UInt8), stream = p.wire ++ rest ∧ p.body.length ≤ 8 ∧ p.Rejects) := by
  rw [connectOn_eq]
  by_cases hle : (asBytes clientId).length ≤ 52
  · simp only [hle, if_true, true_and]
    constructor
    · constructor
      · intro h
        obtain ⟨p, hp⟩ := accepts_of_done (Prod.ext (Reader.result_eq_ok.mp h) rfl)
        exact ⟨p, _, hp⟩
      · rintro ⟨p, rest, rfl, hn, hf, flags, more, hbody⟩
        rw [feed_readConnack, if_pos hn, if_neg (by rw [hf, hbody]; simp), if_neg (by rw [hbody]; simp)]
        rfl
    · constructor
      · intro h
        obtain ⟨p, hp⟩ := rejects_of_rejected (Prod.ext (Reader.result_eq_error.mp h) rfl)
        exact ⟨p, _, hp⟩
      · rintro ⟨p, rest, rfl, hn, hf, flags, code, more, hbody, hcode⟩
        rw [feed_readConnack, if_pos hn, if_neg (by rw [hf, hbody]; simp), if_pos (by rw [hbody]; simpa using hcode)]
        rfl
  · simp [hle]

end RelayStar.Mqtt
