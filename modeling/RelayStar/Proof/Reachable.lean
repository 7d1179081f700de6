import RelayStar.Proof.Ingest
import RelayStar.Proof.Receivers

/-!
# Runs of a relay

A run of a relay (`Relay.Run`) is a sequence of calls of its operations. Only
`ingest` touches the receiving side (`op_sameInbox`), so in every state of a run
the slots stay well formed (`run_reassembler_inv`), and so do the rows of the
table of receivers, which is changed by its own calls only (`run_receivers_ok`).
-/

namespace RelayStar

namespace Reassembler

variable {SLOTS PER_SLOT : Nat} {r : Reassembler SLOTS PER_SLOT}

theorem ingest_inv (hI : r.Inv) (m : Message) : (r.ingest m).2.Inv := by
  cases h : m.frag with
  | none => rw [r.ingest_unfragmented h]; exact hI
  | some f =>
    by_cases hf : Spec.HeaderOk PER_SLOT f
    · exact (r.ingest_refines hI h hf).2.2
    · rw [r.ingest_badHeader h hf]; exact hI

end Reassembler

namespace Relay

variable {NR NA NF : Nat}

/-- One call of an operation other than `ingest`; rows of the table of receivers are
asked for only for addresses of `rows`. -/
inductive OpFor (rows : Addr → Prop) : Relay NR NA NF → Relay NR NA NF → Prop
  | nextId (r) : OpFor rows r r.nextId.2
  | registerPort (r t) : OpFor rows r (r.registerPort t)
  | unregisterPort (r t) : OpFor rows r (r.unregisterPort t)
  | addReceiver (r addr t) (h : rows addr) : OpFor rows r (r.addReceiver addr t).2
  | removeReceiver (r addr) : OpFor rows r (r.removeReceiver addr).2
  | learnReceiver (r addr t) (h : rows addr) : OpFor rows r (r.learnReceiver addr t).2
  | planSend (r kind payload dest) : OpFor rows r (r.planSend kind payload dest).2
  | planForward (r msg target) : OpFor rows r (r.planForward msg target).2
  | send (r) {P : Type} [TransportPort P] (port : P) (kind payload dest) :
      OpFor rows r (r.send port kind payload dest).2
  | forward (r) {P : Type} [TransportPort P] (port : P) (msg) : OpFor rows r (r.forward port msg).2

/-- A run from `r₀`, with its calls of `ingest`: the relay before the call, the
source and the bytes. -/
inductive RunFor (rows : Addr → Prop) (r₀ : Relay NR NA NF) :
    List (Relay NR NA NF × Transport × List UInt8) → Relay NR NA NF → Prop
  | start : RunFor rows r₀ [] r₀
  | other {calls r r'} (h : RunFor rows r₀ calls r) (hop : OpFor rows r r') : RunFor rows r₀ calls r'
  | ingest {calls r} (h : RunFor rows r₀ calls r) (source frame) :
      RunFor rows r₀ (calls ++ [(r, source, frame)]) (r.ingest source frame).2

/-- A run of any operations. -/
abbrev Run (r₀ : Relay NR NA NF) : List (Relay NR NA NF × Transport × List UInt8) → Relay NR NA NF → Prop :=
  RunFor (fun _ => True) r₀

/-- The states of a relay over its life. -/
def Reachable (r : Relay NR NA NF) : Prop := ∃ selfAddr idBase calls, Run (new selfAddr idBase) calls r

/-! ## Operations that leave the receiving side alone -/

/-- Only ids were allocated. -/
def OnlyIds (r r' : Relay NR NA NF) : Prop := ∃ n, r' = { r with idCtr := n }

namespace OnlyIds

theorem refl (r : Relay NR NA NF) : OnlyIds r r := ⟨_, rfl⟩

theorem nextId (r : Relay NR NA NF) : OnlyIds r r.nextId.2 := ⟨_, rfl⟩

theorem trans {r r' r'' : Relay NR NA NF} (h : OnlyIds r r') (h' : OnlyIds r' r'') : OnlyIds r r'' := by
  obtain ⟨n, rfl⟩ := h
  obtain ⟨n', rfl⟩ := h'
  exact ⟨n', rfl⟩

theorem planTargets (id : UInt32) (kind : MsgKind) (payload : List UInt8) (dest : Destination)
    (ts : List Transport) (out : HVec PlannedFrame (MAX_FRAGMENTS * 3)) (r : Relay NR NA NF) :
    OnlyIds r (planTargets id kind payload dest ts out r).2 := by
  induction ts generalizing out r with
  | nil => exact refl r
  | cons t ts ih =>
    rw [Relay.planTargets]
    split
    · exact refl r
    · dsimp only
      split
      · exact nextId r
      · split
        · exact nextId r
        · exact (nextId r).trans (ih _ _)

theorem planSend (r : Relay NR NA NF) (kind : MsgKind) (payload : List UInt8) (dest : Destination) :
    OnlyIds r (r.planSend kind payload dest).2 := by
  unfold Relay.planSend
  split
  · exact refl r
  · split
    · exact refl r
    · exact (nextId r).trans (planTargets ..)

theorem planForward (r : Relay NR NA NF) (msg : Message) (target : Transport) :
    OnlyIds r (r.planForward msg target).2 := by
  unfold Relay.planForward
  split
  · exact refl r
  · dsimp only
    split
    · exact nextId r
    · exact nextId r

section Port

variable {P : Type} [TransportPort P] (port : P)

theorem emit (r : Relay NR NA NF) (msg : Message) (dest : Destination) : OnlyIds r (r.emit port msg dest).2 := by
  unfold Relay.emit
  dsimp only
  split
  · exact nextId r
  · exact nextId r

theorem send (r : Relay NR NA NF) (kind : MsgKind) (payload : List UInt8) (dest : Destination) :
    OnlyIds r (r.send port kind payload dest).2 := by
  unfold Relay.send
  split
  · exact refl r
  · split
    · exact refl r
    · dsimp only
      split
      · exact nextId r
      · exact (nextId r).trans (emit ..)

theorem forward (r : Relay NR NA NF) (msg : Message) : OnlyIds r (r.forward port msg).2 := by
  unfold Relay.forward
  split
  · exact refl r
  · exact emit ..

end Port

end OnlyIds

/-- The receiving side is as it was. -/
structure SameInbox (r r' : Relay NR NA NF) : Prop where
  selfAddr : r'.selfAddr = r.selfAddr
  reassembler : r'.reassembler = r.reassembler
  seen : r'.seen = r.seen

theorem OnlyIds.sameInbox {r r' : Relay NR NA NF} (h : OnlyIds r r') : SameInbox r r' := by
  obtain ⟨n, rfl⟩ := h
  exact ⟨rfl, rfl, rfl⟩

namespace SameInbox

theorem refl (r : Relay NR NA NF) : SameInbox r r := ⟨rfl, rfl, rfl⟩

theorem trans {r r' r'' : Relay NR NA NF} (h : SameInbox r r') (h' : SameInbox r' r'') : SameInbox r r'' :=
  ⟨h'.selfAddr.trans h.selfAddr, h'.reassembler.trans h.reassembler, h'.seen.trans h.seen⟩

theorem planSend (r : Relay NR NA NF) (kind : MsgKind) (payload : List UInt8) (dest : Destination) :
    SameInbox r (r.planSend kind payload dest).2 := (OnlyIds.planSend ..).sameInbox

theorem planForward (r : Relay NR NA NF) (msg : Message) (target : Transport) :
    SameInbox r (r.planForward msg target).2 := (OnlyIds.planForward ..).sameInbox

end SameInbox

/-- All that the operations but `ingest` do: allocate ids, register ports, and
call the table of receivers. -/
theorem op_cases {rows : Addr → Prop} {r r' : Relay NR NA NF} (h : OpFor rows r r') :
    OnlyIds r r' ∨ (∃ v, r' = { r with registered := v }) ∨
      ∃ c : ReceiverTable.Call, (∀ addr ∈ c.asks, rows addr) ∧ r' = { r with receivers := (r.receivers.call c).2 } := by
  cases h with
  | nextId => exact .inl (.nextId r)
  | registerPort t => exact .inr (.inl ⟨_, rfl⟩)
  | unregisterPort t => exact .inr (.inl ⟨_, rfl⟩)
  | addReceiver addr t hrows => exact .inr (.inr ⟨.add addr t, fun _ ha => Option.some.inj ha ▸ hrows, rfl⟩)
  | removeReceiver addr => exact .inr (.inr ⟨.remove addr, fun _ ha => (by cases ha), rfl⟩)
  | learnReceiver addr t hrows => exact .inr (.inr ⟨.learn addr t, fun _ ha => Option.some.inj ha ▸ hrows, rfl⟩)
  | planSend kind payload dest => exact .inl (.planSend ..)
  | planForward msg target => exact .inl (.planForward ..)
  | send port kind payload dest => exact .inl (.send ..)
  | forward port msg => exact .inl (.forward ..)

/-- Every operation but `ingest` leaves the receiving side alone. -/
theorem op_sameInbox {rows : Addr → Prop} {r r' : Relay NR NA NF} (h : OpFor rows r r') : SameInbox r r' := by
  rcases op_cases h with h | ⟨v, rfl⟩ | ⟨c, -, rfl⟩
  · exact h.sameInbox
  · exact ⟨rfl, rfl, rfl⟩
  · exact ⟨rfl, rfl, rfl⟩

/-! ## Invariants -/

/-- The table after a call of `ingest`. -/
theorem ingest_receivers (r : Relay NR NA NF) (source : Transport) {frame : List UInt8} {m : Message}
    (h : Message.decode frame = .ok m) :
    (r.ingest source frame).2.receivers = r.learnSender (m.arrived source) source := by
  by_cases hk : some m.dedupKey ∈ r.seen.window
  · rw [r.ingest_known source h hk]
  · rw [r.ingest_new source h hk]

theorem learnSender_ok {r : Relay NR NA NF} (hI : r.receivers.Ok) (m : Message) (source : Transport) :
    (r.learnSender m source).Ok := by
  unfold learnSender
  split
  · exact (ReceiverTable.call_refines hI (.add m.fromAddr source)).2.1
  · exact hI

/-- The rows of the table stay well formed. -/
theorem run_receivers_ok {r₀ r : Relay NR NA NF} {calls : List (Relay NR NA NF × Transport × List UInt8)}
    (h : Run r₀ calls r) (hI : r₀.receivers.Ok) : r.receivers.Ok := by
  induction h with
  | start => exact hI
  | other _ hop ih =>
    rcases op_cases hop with ⟨n, rfl⟩ | ⟨v, rfl⟩ | ⟨c, -, rfl⟩
    · exact ih
    · exact ih
    · exact (ReceiverTable.call_refines ih c).2.1
  | @ingest _ r _ source frame ih =>
    cases hd : Message.decode frame with
    | error e => rw [r.ingest_error source hd]; exact ih
    | ok m => rw [r.ingest_receivers source hd]; exact learnSender_ok ih _ _

theorem reachable_receivers {r : Relay NR NA NF} (h : r.Reachable) : r.receivers.Ok := by
  obtain ⟨selfAddr, idBase, calls, h⟩ := h
  exact run_receivers_ok h ReceiverTable.ok_new

theorem ingest_reassembler_inv {r : Relay NR NA NF} (hI : r.reassembler.Inv) (source : Transport)
    (frame : List UInt8) : (r.ingest source frame).2.reassembler.Inv := by
  cases hd : Message.decode frame with
  | error e => rw [r.ingest_error source hd]; exact hI
  | ok m =>
    by_cases hk : some m.dedupKey ∈ r.seen.window
    · rw [r.ingest_known source hd hk]; exact hI
    · rw [r.ingest_new source hd hk]; exact Reassembler.ingest_inv hI _

/-- The slots are well formed before every call of a run, and after it. -/
theorem run_reassembler_inv {r₀ r : Relay NR NA NF} {calls : List (Relay NR NA NF × Transport × List UInt8)}
    (h : Run r₀ calls r) (hI : r₀.reassembler.Inv) :
    (∀ c ∈ calls, c.1.reassembler.Inv) ∧ r.reassembler.Inv := by
  induction h with
  | start => exact ⟨fun c hc => (by cases hc), hI⟩
  | other _ hop ih =>
    rw [(op_sameInbox hop).reassembler]
    exact ih
  | ingest _ source frame ih =>
    refine ⟨fun c hc => ?_, ingest_reassembler_inv ih.2 source frame⟩
    rcases List.mem_append.mp hc with hc | hc
    · exact ih.1 c hc
    · rw [List.mem_singleton.mp hc]
      exact ih.2

theorem reachable_inv {r : Relay NR NA NF} (h : r.Reachable) : r.reassembler.Inv := by
  obtain ⟨selfAddr, idBase, calls, h⟩ := h
  exact (run_reassembler_inv h (Reassembler.inv_of_idle Reassembler.inFlight_new)).2

end Relay

end RelayStar
