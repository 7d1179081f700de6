import RelayStar.Framework.Hex
import RelayStar.Impl.MqttPort
import RelayStar.Proof.Mqtt

/-!
# Unicast topics

`Topic.unicastFor` writes the prefix and the digits of the address over the first
24 bytes of its buffer (`unicastFor_eq`): the loop replaces a cell after the other
(`writeHex_spec`). So a topic stands for one node (`unicastFor_identifies`).
-/

namespace RelayStar

theorem hexNibble_eq : ∀ n < 16, hexNibble (UInt8.ofNat n) = Hex.digit n := by decide

theorem hexNibble_high (b : UInt8) : hexNibble (b >>> 4) = Hex.digit (b.toNat / 16) := by
  have hb := b.toNat_lt
  have hhigh : b >>> 4 = UInt8.ofNat (b.toNat / 16) := by
    apply UInt8.toNat_inj.mp
    rw [UInt8.toNat_shiftRight, UInt8.toNat_ofNat', Nat.shiftRight_eq_div_pow]
    show b.toNat / 16 = b.toNat / 16 % 256
    omega
  rw [hhigh, hexNibble_eq _ (by omega)]

theorem hexNibble_low (b : UInt8) : hexNibble (b &&& 0x0F) = Hex.digit (b.toNat % 16) := by
  have hlow : b &&& 0x0F = UInt8.ofNat (b.toNat % 16) := by
    apply UInt8.toNat_inj.mp
    rw [UInt8.toNat_and, UInt8.toNat_ofNat']
    have h : b.toNat &&& 15 = b.toNat % 16 := Nat.and_two_pow_sub_one_eq_mod b.toNat 4
    show b.toNat &&& 15 = b.toNat % 16 % 256
    omega
  rw [hlow, hexNibble_eq _ (Nat.mod_lt _ (by decide))]

namespace Topic

/-- The loop writes the digits over as many bytes, and moves past them. -/
theorem writeHex_spec {n i : Nat} {bytes : List UInt8} (h : i + 2 * bytes.length ≤ n) {buf : Vector UInt8 n}
    {before old after : List UInt8} (hbuf : buf.toList = before ++ (old ++ after)) (hi : before.length = i)
    (hold : old.length = 2 * bytes.length) :
    (writeHex bytes i h buf).1 = i + 2 * bytes.length ∧
      (writeHex bytes i h buf).2.toList = before ++ (Hex.encode bytes ++ after) := by
  induction bytes generalizing i buf before old with
  | nil =>
    rw [List.length_eq_zero_iff.mp hold] at hbuf
    exact ⟨rfl, hbuf⟩
  | cons b bytes ih =>
    obtain ⟨x, y, old, rfl⟩ : ∃ x y old', old = x :: y :: old' := by
      match old, hold with
      | x :: y :: old', _ => exact ⟨x, y, old', rfl⟩
    subst hi
    rw [List.length_cons] at h hold
    have hset : ((buf.set before.length (hexNibble (b >>> 4)) (by omega)).set (before.length + 1)
        (hexNibble (b &&& 0x0F)) (by omega)).toList =
          before ++ [Hex.digit (b.toNat / 16), Hex.digit (b.toNat % 16)] ++ (old ++ after) := by
      rw [Vector.toList_set, Vector.toList_set, hbuf, hexNibble_high, hexNibble_low]
      simp
    obtain ⟨h1, h2⟩ := ih (i := before.length + 2) (by omega) hset (by rw [List.length_append]; rfl)
      (by rw [List.length_cons, List.length_cons] at hold; omega)
    rw [writeHex, Hex.encode_cons]
    refine ⟨by rw [List.length_cons]; omega, ?_⟩
    rw [h2, List.append_assoc]
    rfl

/-- The bytes of the topic of a node. -/
def unicastBytes (addr : Addr) : List UInt8 := asBytes UNICAST_PREFIX ++ Hex.encode addr.toList

theorem length_unicastBytes (addr : Addr) : (unicastBytes addr).length = UNICAST_TOPIC_LEN := by
  rw [unicastBytes, List.length_append, length_unicastPrefix, Hex.length_encode, Vector.length_toList]
  rfl

theorem unicastBytes_lt (addr : Addr) : ∀ b ∈ unicastBytes addr, b.toNat < 128 := by
  have hprefix : ∀ b ∈ asBytes UNICAST_PREFIX, b.toNat < 128 := by decide +kernel
  intro b hb
  apply (List.mem_append.mp hb).elim
  · exact hprefix b
  · exact fun hb => (Hex.isDigit_of_mem_encode b hb).lt

/-- They are text. -/
theorem fromUtf8_unicastBytes (addr : Addr) : ∃ topic, fromUtf8 (unicastBytes addr) = some topic := by
  rw [fromUtf8, String.fromUTF8?, dif_pos (Hex.isValidUTF8_of_lt (unicastBytes_lt addr))]
  exact ⟨_, rfl⟩

/-- A buffer that is long enough gets the topic over its first bytes. -/
theorem unicastFor_eq (addr : Addr) {n : Nat} (buf : Vector UInt8 n) (h : UNICAST_TOPIC_LEN ≤ n) :
    ∃ topic, fromUtf8 (unicastBytes addr) = some topic ∧ (unicastFor addr buf).1 = .ok topic ∧
      (unicastFor addr buf).2.toList = unicastBytes addr ++ buf.toList.drop UNICAST_TOPIC_LEN := by
  obtain ⟨topic, htopic⟩ := fromUtf8_unicastBytes addr
  refine ⟨topic, htopic, ?_⟩
  have hlen : 12 + 2 * addr.toList.length ≤ n := by rw [Vector.length_toList]; exact h
  have hcopy (hp : (asBytes UNICAST_PREFIX).length ≤ n) : (copyFromSlice buf (asBytes UNICAST_PREFIX) hp).toList =
      asBytes UNICAST_PREFIX ++ ((buf.toList.drop 12).take 12 ++ buf.toList.drop UNICAST_TOPIC_LEN) := by
    have hdrop : (buf.toList.drop 12).take 12 ++ buf.toList.drop UNICAST_TOPIC_LEN = buf.toList.drop 12 := by
      rw [show UNICAST_TOPIC_LEN = 12 + 12 from rfl, ← List.drop_drop, List.take_append_drop]
    rw [hdrop, ← length_unicastPrefix]
    rfl
  have hloop (hp : (asBytes UNICAST_PREFIX).length ≤ n)
      (hi : (asBytes UNICAST_PREFIX).length + 2 * addr.toList.length ≤ n) :=
    writeHex_spec hi (hcopy hp) rfl (by
      rw [List.length_take, List.length_drop, Vector.length_toList, Vector.length_toList]
      rw [show UNICAST_TOPIC_LEN = 24 from rfl] at h
      omega)
  obtain ⟨h1, h2⟩ := hloop (by rw [length_unicastPrefix]; omega) (by rw [length_unicastPrefix]; exact hlen)
  rw [← List.append_assoc] at h2
  rw [unicastFor, dif_neg (Nat.not_lt.mpr h)]
  refine ⟨congrArg Except.ok ?_, h2⟩
  show fromUtf8Unchecked (List.take (writeHex ..).1 (writeHex ..).2.toList) = topic
  rw [unicastBytes] at htopic
  rw [h1, h2, List.take_left' (by rw [List.length_append, Hex.length_encode]), fromUtf8Unchecked, htopic,
    Option.getD_some]

/-- The topic of a node, in any buffer that is long enough, is the prefix and
twelve digits that its address is read back from; it is ASCII, it is written over
as many bytes and no other, and it is neither the topic of another node nor the
broadcast topic. A shorter buffer is refused as it is. -/
theorem unicastFor_identifies :
    (∀ (addr : Addr) {n : Nat} (buf : Vector UInt8 n), UNICAST_TOPIC_LEN ≤ n → ∃ (topic : String) (digits : List UInt8),
      (unicastFor addr buf).1 = .ok topic ∧ asBytes topic = asBytes UNICAST_PREFIX ++ digits ∧
      (digits.length = 12 ∧ (∀ c ∈ digits, Hex.IsDigit c) ∧ Hex.decode digits = some addr.toList) ∧
      ((asBytes topic).length = UNICAST_TOPIC_LEN ∧
        (unicastFor addr buf).2.toList = asBytes topic ++ buf.toList.drop UNICAST_TOPIC_LEN) ∧
      (∀ c ∈ asBytes topic, c.toNat < 128) ∧ topic ≠ BROADCAST) ∧
    (∀ (addr addr' : Addr) {n n' : Nat} (buf : Vector UInt8 n) (buf' : Vector UInt8 n') (topic : String),
      (unicastFor addr buf).1 = .ok topic → (unicastFor addr' buf').1 = .ok topic → addr = addr') ∧
    ∀ (addr : Addr) {n : Nat} (buf : Vector UInt8 n), n < UNICAST_TOPIC_LEN →
      unicastFor addr buf = (.error .frameTooLarge, buf) := by
  have hshort (addr : Addr) {n : Nat} (buf : Vector UInt8 n) (h : n < UNICAST_TOPIC_LEN) :
      unicastFor addr buf = (.error .frameTooLarge, buf) := by
    rw [unicastFor, dif_pos h]
  refine ⟨fun addr n buf h => ?_, fun addr addr' n n' buf buf' topic ht ht' => ?_, hshort⟩
  · obtain ⟨topic, htopic, hok, hbuf⟩ := unicastFor_eq addr buf h
    have hbytes : asBytes topic = unicastBytes addr := asBytes_of_fromUtf8 htopic
    refine ⟨topic, Hex.encode addr.toList, hok, hbytes, ⟨?_, Hex.isDigit_of_mem_encode, Hex.decode_encode _⟩, ?_, ?_, ?_⟩
    · rw [Hex.length_encode, Vector.length_toList]
    · rw [hbytes]
      exact ⟨length_unicastBytes addr, hbuf⟩
    · rw [hbytes]
      exact unicastBytes_lt addr
    · rintro rfl
      have hlen := congrArg List.length hbytes
      rw [length_unicastBytes, show (asBytes BROADCAST).length = 11 by decide +kernel] at hlen
      cases hlen
  · have hbytes : ∀ (a : Addr) {k : Nat} (b : Vector UInt8 k), (unicastFor a b).1 = .ok topic →
        asBytes topic = unicastBytes a := by
      intro a k b hb
      have hk : UNICAST_TOPIC_LEN ≤ k := by
        by_contra hk
        rw [hshort a b (Nat.lt_of_not_le hk)] at hb
        cases hb
      obtain ⟨topic', htopic, hok, -⟩ := unicastFor_eq a b hk
      obtain rfl : topic = topic' := Except.ok.inj (hb.symm.trans hok)
      exact asBytes_of_fromUtf8 htopic
    have hencode := List.append_cancel_left ((hbytes addr buf ht).symm.trans (hbytes addr' buf' ht'))
    exact Vector.toList_inj.mp (Hex.encode_injective hencode)

/-- In a buffer that is one byte longer, the last byte stays. -/
theorem unicastFor_identifies_longer :
    ∃ topic : String, (unicastFor #v[0xAA, 0xBB, 0xCC, 0xDD, 0xEE, 0x0F] (Vector.replicate 25 7)).1 = .ok topic ∧
      (unicastFor #v[0xAA, 0xBB, 0xCC, 0xDD, 0xEE, 0x0F] (Vector.replicate 25 7)).2.toList = asBytes topic ++ [7] := by
  obtain ⟨topic, digits, hok, -, -, ⟨-, hbuf⟩, -⟩ :=
    unicastFor_identifies.1 #v[0xAA, 0xBB, 0xCC, 0xDD, 0xEE, 0x0F] (Vector.replicate 25 7) (by decide)
  exact ⟨topic, hok, hbuf⟩

end Topic

end RelayStar
