import RelayStar.Proof.Mqtt

/-!
# Packets in a stream

A call of `readPublish` takes a packet, whatever its type, if it fits the buffer
(`feed_readPublish`). A packet that is larger is left in the stream without its
header, so the next call reads its header from the middle of it: the calls take a
packet each as long as all of them fit (`aligned_iff`), and a packet that does not
fit can have another one inside (`smuggled_publish`).
-/

namespace RelayStar.Mqtt

open Spec (Packet wires)

/-- What is decoded from a packet takes no more bytes. -/
theorem readPublish_eq (n : Nat) : ∃ f, (∀ x, (f x).Ended) ∧ readPublish n = (readPacket n).bind f := by
  refine ⟨_, fun x => ?_, rfl⟩
  obtain ⟨first, body⟩ := x
  dsimp only
  split
  · trivial
  · split
    · split
      · trivial
      · split <;> trivial
    · trivial

/-- A call of `readPublish` on a packet returns, and takes the packet if it fits. -/
theorem feed_readPublish (p : Packet) (n : Nat) (rest : List UInt8) :
    ∃ r, r.Ended ∧
      (readPublish n).feed (p.wire ++ rest) = (r, if p.body.length ≤ n then rest else p.body ++ rest) := by
  obtain ⟨f, hf, heq⟩ := readPublish_eq n
  have hp := feed_packet p n rest
  rw [heq]
  split
  · rename_i hn
    rw [if_pos hn] at hp
    exact Reader.feed_bind_ended hf hp trivial
  · rename_i hn
    rw [if_neg hn] at hp
    exact Reader.feed_bind_ended hf hp trivial

/-! ## Calls in a row -/

/-- What calls of `readPublish` with these buffers leave of a stream. -/
def leave (bufs : List Nat) (bytes : List UInt8) : List UInt8 :=
  bufs.foldl (fun bs n => ((readPublish n).feed bs).2) bytes

/-- Each of these calls returns and takes exactly its packet from the stream. -/
def Aligned (calls : List (Packet × Nat)) (rest : List UInt8) : Prop :=
  ∀ before call after, calls = before ++ call :: after →
    ∃ r : Reader Mqtt311Error (Option IncomingPublish), r.Ended ∧
      (readPublish call.2).feed (leave (before.map Prod.snd) (wires (calls.map Prod.fst) ++ rest)) =
        (r, wires (after.map Prod.fst) ++ rest)

theorem stream_cons (call : Packet × Nat) (calls : List (Packet × Nat)) (rest : List UInt8) :
    wires ((call :: calls).map Prod.fst) ++ rest = call.1.wire ++ (wires (calls.map Prod.fst) ++ rest) := by
  rw [wires, List.map_cons, List.flatMap_cons, List.append_assoc]
  rfl

/-- The first call takes its packet if it fits. -/
theorem feed_stream_cons (call : Packet × Nat) (calls : List (Packet × Nat)) (rest : List UInt8) :
    (∃ r : Reader Mqtt311Error (Option IncomingPublish), r.Ended ∧
      (readPublish call.2).feed (wires ((call :: calls).map Prod.fst) ++ rest) =
        (r, wires (calls.map Prod.fst) ++ rest)) ↔ call.1.body.length ≤ call.2 := by
  obtain ⟨r, hr, hfeed⟩ := feed_readPublish call.1 call.2 (wires (calls.map Prod.fst) ++ rest)
  rw [stream_cons, hfeed]
  constructor
  · rintro ⟨r', -, heq⟩
    by_contra hn
    rw [if_neg hn] at heq
    have hnil := List.append_left_eq_self.mp (Prod.mk.inj heq).2
    rw [hnil] at hn
    exact hn (Nat.zero_le _)
  · intro hn
    exact ⟨r, hr, by rw [if_pos hn]⟩

/-- The calls after the first one are on the stream that it leaves. -/
theorem aligned_cons (call : Packet × Nat) (calls : List (Packet × Nat)) (rest : List UInt8) :
    Aligned (call :: calls) rest ↔ call.1.body.length ≤ call.2 ∧ Aligned calls rest := by
  have hleave (hn : call.1.body.length ≤ call.2) (bufs : List Nat) :
      leave (call.2 :: bufs) (wires ((call :: calls).map Prod.fst) ++ rest) =
        leave bufs (wires (calls.map Prod.fst) ++ rest) := by
    obtain ⟨r, -, hfeed⟩ := (feed_stream_cons call calls rest).mpr hn
    rw [leave, List.foldl_cons, hfeed]
    rfl
  constructor
  · intro h
    have hn := (feed_stream_cons call calls rest).mp (h [] call calls rfl)
    refine ⟨hn, fun before c after heq => ?_⟩
    have hc := h (call :: before) c after (by rw [heq, List.cons_append])
    rwa [List.map_cons, hleave hn] at hc
  · intro h before c after heq
    cases before with
    | nil =>
      obtain ⟨rfl, rfl⟩ := List.cons.inj heq
      exact (feed_stream_cons call calls rest).mpr h.1
    | cons call' before =>
      obtain ⟨rfl, htail⟩ := List.cons.inj heq
      rw [List.map_cons, hleave h.1]
      exact h.2 before c after htail

/-- Calls of `readPublish` on a stream of packets take a packet each exactly when
every packet fits the buffer of its call. -/
theorem aligned_iff (calls : List (Packet × Nat)) (rest : List UInt8) :
    Aligned calls rest ↔ ∀ call ∈ calls, call.1.body.length ≤ call.2 := by
  induction calls with
  | nil =>
    refine ⟨fun _ c hc => absurd hc List.not_mem_nil, fun _ before c after heq => ?_⟩
    cases before <;> cases heq
  | cons call calls ih => rw [aligned_cons, ih, List.forall_mem_cons]

/-- A packet of five bytes that are a `PUBLISH` packet themselves. -/
def forged : Packet := ⟨0x30, [5], [0x30, 3, 0, 1, 0x78], by decide, by decide, by decide⟩

/-- The packet inside. -/
def smuggled : Spec.Publish := ⟨0x30, "x", [], rfl, by decide +kernel⟩

/-- With buffers of four bytes the next call reads the packet inside. -/
theorem smuggled_publish : ¬ Aligned [(forged, 4)] [] ∧
    (readPublish 4).feed (leave [4] forged.wire) = (.done (some smuggled.content), []) := by
  have hleave : leave [4] forged.wire = smuggled.wire := by
    rw [show smuggled.wire = [0x30, 3, 0, 1, 0x78] by decide +kernel]
    rfl
  constructor
  · intro h
    obtain ⟨r, -, hr⟩ := h [] (forged, 4) [] rfl
    have hnil : leave [4] forged.wire = [] := congrArg Prod.snd hr
    rw [hleave] at hnil
    cases hnil
  · rw [hleave]
    exact reads_publish smuggled (by decide +kernel) (by decide +kernel)

end RelayStar.Mqtt
