import RelayStar.Framework.Ring
import RelayStar.Impl.Relay

/-!
# The wire protocol: bytes, seen cache, dedup keys

A message survives its encoding, whatever follows it, and is not read from less
(`encode_lossless`); it fits a `MAX_FRAME` buffer and every medium
(`frame_fits`). The seen cache is a sliding window:
read from its newest entry (`window`), recording an id puts it in front and
drops the oldest (`window_insert`), from any state of its arrays. The key of
a frame is its id with the slice number in the upper half
(`dedupKey_eq`): on frames of one id it tells the slices apart
(`dedupKey_inj`).
-/

namespace RelayStar

/-! ## Bytes -/

namespace Message

theorem decode_wire (m : Message) (s : List UInt8) : decode (m.wire ++ s) = .ok m := by
  simp only [decode, wire, Wire.message.take_put]

@[simp] theorem decode_wire_self (m : Message) : decode m.wire = .ok m := by
  have := m.decode_wire []
  rwa [List.append_nil] at this

theorem wire_eq (m : Message) : m.wire = Wire.u32.put m.id ++ (Wire.byte.put m.ttl ++
    (Wire.transport.put m.origin ++ (Wire.addr.put m.fromAddr ++ (Wire.addr.put m.toAddr ++
    (Wire.msgKind.put m.kind ++ (Wire.payload.put m.payload ++
    (Wire.option Wire.fragment).put m.frag)))))) := rfl

end Message

namespace Wire

theorem length_u32 (n : UInt32) : (u32.put n).length ≤ 5 := length_putVarint_le 5 n.toNat

theorem length_u16 (n : UInt16) : (u16.put n).length ≤ 3 := length_putVarint_le 3 n.toNat

/-- The bytes of a list of bytes. -/
theorem flatMap_byte (l : List UInt8) : l.flatMap byte.put = l := List.flatMap_singleton' l

theorem length_addr (a : Addr) : (addr.put a).length = 6 := by
  show (a.toList.flatMap byte.put).length = 6
  rw [flatMap_byte, Vector.length_toList]

theorem length_transport (t : Transport) : (transport.put t).length = 1 := by cases t <;> rfl

theorem length_msgKind (k : MsgKind) : (msgKind.put k).length = 1 := by cases k <;> rfl

/-- A length that fits two bytes. -/
theorem length_putVarint_two {n : Nat} (h : n < 128 * 128) : (putVarint 5 n).length ≤ 2 := by
  rw [putVarint]
  split
  · exact Nat.le_succ 1
  · rw [putVarint, if_pos (by omega)]; exact Nat.le_refl _

theorem length_payload (p : Payload) : (payload.put p).length ≤ 2 + p.len := by
  show (putVarint 5 (UInt32.ofNat p.len).toNat ++ p.toList.flatMap byte.put).length ≤ 2 + p.len
  have hp : p.len ≤ 200 := p.len_le
  have h : (UInt32.ofNat p.len).toNat = p.len := by simp only [UInt32.toNat_ofNat']; omega
  have := length_putVarint_two (n := p.len) (by omega)
  rw [h, flatMap_byte, List.length_append]
  exact Nat.add_le_add_right this _

theorem length_fragment (f : Option Fragment) : ((option fragment).put f).length ≤ 12 := by
  cases f with
  | none => exact Nat.le_of_ble_eq_true rfl
  | some f =>
    show (1 :: (u32.put f.groupId ++ (u16.put f.seq ++ u16.put f.total))).length ≤ 12
    have := length_u32 f.groupId
    have := length_u16 f.seq
    have := length_u16 f.total
    simp only [List.length_cons, List.length_append]
    omega

end Wire

namespace Message

/-- The envelope takes at most 34 bytes. -/
theorem length_wire_le (m : Message) : m.wire.length ≤ 34 + m.payload.len := by
  have := Wire.length_u32 m.id
  have := Wire.length_payload m.payload
  have := Wire.length_fragment m.frag
  rw [wire_eq]
  simp only [List.length_append, Wire.length_transport, Wire.length_msgKind, Wire.length_addr,
    show (Wire.byte.put m.ttl).length = 1 from rfl]
  omega

/-- No message is longer than 234 bytes. -/
theorem length_wire (m : Message) : m.wire.length ≤ 234 := by
  have := m.length_wire_le
  have hp : m.payload.len ≤ 200 := m.payload.len_le
  omega

theorem encode_eq_ok {m : Message} {n : Nat} {bytes : List UInt8} :
    m.encode n = .ok bytes ↔ m.wire.length ≤ n ∧ m.wire = bytes := by
  rw [encode]
  split
  · rename_i h; rw [Except.ok.injEq, and_iff_right h]
  · rename_i h; exact ⟨fun e => (by cases e), fun e => absurd e.1 h⟩

/-- A frame buffer holds any message. -/
theorem encode_max_frame (m : Message) : m.encode MAX_FRAME = .ok m.wire :=
  encode_eq_ok.mpr ⟨Nat.le_trans m.length_wire (by decide : 234 ≤ MAX_FRAME), rfl⟩

/-- A message is read back from its bytes whatever follows them, and a frame
cut short is refused. -/
theorem encode_lossless (m : Message) :
    ∃ bytes, m.encode MAX_FRAME = .ok bytes ∧ (∀ n b, m.encode n = .ok b → b = bytes) ∧
      (∀ s, decode (bytes ++ s) = .ok m) ∧ ∀ p, p <+: bytes → p ≠ bytes → decode p = .error .decode := by
  refine ⟨m.wire, m.encode_max_frame, fun n b h => (encode_eq_ok.mp h).2.symm, m.decode_wire, ?_⟩
  intro p hp hne
  rw [decode, Wire.message.take_cut hp hne]

end Message

/-- Every frame fits its medium: a message takes at most 250 bytes, and so do
the frames that are planned. -/
theorem frame_fits {NR NA NF : Nat} (r : Relay NR NA NF) (m : Message) :
    m.encode MAX_FRAME = .ok m.wire ∧
      (∀ n, (m.wire.length ≤ n → m.encode n = .ok m.wire) ∧
        (n < m.wire.length → m.encode n = .error .bufferTooSmall)) ∧
      m.wire.length ≤ 250 ∧
      (∀ kind payload dest out, (r.planSend kind payload dest).1 = .ok out → ∀ f ∈ out.toList,
        ∃ bytes, f.message.encode MAX_FRAME = .ok bytes ∧ bytes.length ≤ 250) ∧
      ∀ t out, (r.planForward m t).1 = .ok out → ∀ f ∈ out.toList,
        ∃ bytes, f.message.encode MAX_FRAME = .ok bytes ∧ bytes.length ≤ 250 := by
  have hfit : ∀ m : Message, m.wire.length ≤ 250 := fun m => Nat.le_trans m.length_wire (by decide)
  have hframe : ∀ m : Message, ∃ bytes, m.encode MAX_FRAME = .ok bytes ∧ bytes.length ≤ 250 :=
    fun m => ⟨m.wire, m.encode_max_frame, hfit m⟩
  refine ⟨m.encode_max_frame, fun n => ⟨fun h => ?_, fun h => ?_⟩, hfit m, fun _ _ _ _ _ f _ => hframe f.message,
    fun _ _ _ f _ => hframe f.message⟩
  · exact Message.encode_eq_ok.mpr ⟨h, rfl⟩
  · rw [Message.encode, if_neg (Nat.not_le_of_lt h)]

/-! ## The seen cache -/

namespace SeenCache

variable {N : Nat}

/-- The entry of cell `j`. -/
def cell (c : SeenCache N) (j : Nat) : Option UInt32 :=
  if h : j < N then if c.valid[j] then some c.ids[j] else none else none

/-- The cells, newest first. -/
def window (c : SeenCache N) : List (Option UInt32) := recent N c.next c.cell

@[simp] theorem length_window (c : SeenCache N) : c.window.length = N := length_recent _

theorem contains_iff (c : SeenCache N) (id : UInt32) : c.contains id = true ↔ some id ∈ c.window := by
  rw [window, mem_recent c.next.isLt, contains]
  simp only [List.any_eq_true, List.mem_finRange, true_and, Bool.and_eq_true, beq_iff_eq]
  constructor
  · rintro ⟨⟨j, hj⟩, hv, rfl⟩
    refine ⟨j, hj, ?_⟩
    exact (dif_pos hj).trans (if_pos hv)
  · rintro ⟨j, hj, hc⟩
    rw [cell, dif_pos hj] at hc
    split at hc
    · rename_i hv
      exact ⟨⟨j, hj⟩, hv, Option.some.inj hc⟩
    · cases hc

/-- Recording an id puts it in front of the window. -/
theorem window_insert (c : SeenCache N) (id : UInt32) :
    (c.insert id).window = (some id :: c.window).take N := by
  rw [window, window, ← recent_push _ _ c.next.isLt]
  refine recent_congr (Nat.mod_lt _ (by have := c.next.isLt; omega)) fun j hj => ?_
  simp only [cell, dif_pos hj, insert, Vector.getElem_set]
  by_cases h : c.next = j
  · simp only [h, ite_true, Function.update_self]
  · simp only [h, ite_false, Function.update_of_ne (fun e => h e.symm), cell, dif_pos hj]

theorem window_new [NeZero N] : (new : SeenCache N).window = List.replicate N none := by
  rw [List.eq_replicate_iff]
  refine ⟨length_window _, fun x hx => ?_⟩
  obtain ⟨j, hj, rfl⟩ := (mem_recent (new : SeenCache N).next.isLt).mp hx
  simp only [cell, dif_pos hj, new, Vector.getElem_replicate, Bool.false_eq_true, ite_false]

theorem contains_new [NeZero N] (id : UInt32) : (new : SeenCache N).contains id = false := by
  rw [← Bool.not_eq_true, contains_iff, window_new]
  intro h
  cases (List.mem_replicate.mp h).2

theorem not_mem_window {c : SeenCache N} {id : UInt32} (h : c.contains id = false) : some id ∉ c.window := by
  rw [← contains_iff, h]
  decide

theorem checkAndInsert_of_mem {c : SeenCache N} {id : UInt32} (h : some id ∈ c.window) :
    c.checkAndInsert id = (false, c) := by
  rw [checkAndInsert, if_pos ((c.contains_iff id).mpr h)]

theorem checkAndInsert_of_not_mem {c : SeenCache N} {id : UInt32} (h : some id ∉ c.window) :
    c.checkAndInsert id = (true, c.insert id) := by
  rw [checkAndInsert, if_neg fun hc => h ((c.contains_iff id).mp hc)]

end SeenCache

/-! ## Dedup keys -/

namespace Message

/-- The slice a frame is; a message that was not split counts as slice 0. -/
def sliceIndex (m : Message) : UInt16 := (m.frag.map Fragment.seq).getD 0

theorem dedupKey_eq (m : Message) : m.dedupKey = m.id ^^^ (m.sliceIndex.toUInt32 <<< 16) := by
  rw [dedupKey, sliceIndex]
  cases m.frag with
  | none => show m.id = m.id ^^^ 0; rw [UInt32.xor_zero]
  | some f => rfl

theorem shift_inj {s s' : UInt16} (h : s.toUInt32 <<< 16 = s'.toUInt32 <<< 16) : s = s' := by
  have h := congrArg UInt32.toNat h
  have := s.toNat_lt
  have := s'.toNat_lt
  simp only [UInt32.toNat_shiftLeft, UInt16.toNat_toUInt32, Nat.shiftLeft_eq] at h
  apply UInt16.toNat_inj.mp
  rw [show UInt32.toNat 16 % 32 = 16 from rfl] at h
  omega

/-- The key has the lower half of the id. -/
theorem dedupKey_mod (m : Message) : m.dedupKey.toNat % 65536 = m.id.toNat % 65536 := by
  have hs : (m.sliceIndex.toUInt32 <<< 16).toNat % 2 ^ 16 = 0 := by
    have := m.sliceIndex.toNat_lt
    rw [UInt32.toNat_shiftLeft, UInt16.toNat_toUInt32, Nat.shiftLeft_eq, show UInt32.toNat 16 % 32 = 16 from rfl]
    omega
  rw [dedupKey_eq, UInt32.toNat_xor, show 65536 = 2 ^ 16 from rfl, Nat.xor_mod_two_pow, hs, Nat.xor_zero]

/-- The key tells the slices of one message apart. -/
theorem dedupKey_inj {m m' : Message} (hid : m.id = m'.id) (h : m.dedupKey = m'.dedupKey) :
    m.sliceIndex = m'.sliceIndex := by
  rw [dedupKey_eq, dedupKey_eq, hid] at h
  exact shift_inj ((UInt32.xor_right_inj _).mp h)

/-- The key of slice 0, and of a message that was not split, is its id. -/
theorem dedupKey_of_zero {m : Message} (h : m.sliceIndex = 0) : m.dedupKey = m.id := by
  rw [dedupKey_eq, h]
  show m.id ^^^ 0 = m.id
  rw [UInt32.xor_zero]

end Message

end RelayStar
