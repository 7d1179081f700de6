import RelayStar.Framework.Machine
import RelayStar.Impl.EspNow
import RelayStar.Proof.Forwarding

/-!
# Peers of ESP-NOW

The calls that reach the driver of a radio are recorded (`Tap`). In any run of
calls of a port, and of the loop of the firmware, no peer is registered twice, and
what is sent goes to peers: always with the port (`port_registers`), and with the
loop unless the driver has refused the peer (`loop_registers`).
-/

namespace RelayStar

/-- A driver knows the peers that were added. -/
class LawfulEspNowRadio (R : Type) [EspNowRadio R] : Prop where
  peerExists_addPeer : ∀ (r : R) (mac a : Addr), EspNowRadio.peerExists (EspNowRadio.addPeer r mac).2 a = true ↔
    EspNowRadio.peerExists r a = true ∨ a = mac ∧ (EspNowRadio.addPeer r mac).1.isOk = true
  peerExists_sendTo : ∀ (r : R) (mac : Addr) (frame : List UInt8) (a : Addr),
    EspNowRadio.peerExists (EspNowRadio.sendTo r mac frame).2 a = EspNowRadio.peerExists r a

namespace EspNow

/-- A call of the driver; for a peer, whether it was added. -/
inductive Call where
  | add (mac : Addr) (ok : Bool)
  | send (mac : Addr) (frame : List UInt8)
deriving DecidableEq

/-- A driver with the calls it got. -/
structure Tap (R : Type) where
  radio : R
  calls : List Call

variable {R : Type} [EspNowRadio R]

instance : EspNowRadio (Tap R) where
  Error := EspNowRadio.Error R
  sendTo t mac frame :=
    ((EspNowRadio.sendTo t.radio mac frame).1,
      ⟨(EspNowRadio.sendTo t.radio mac frame).2, t.calls ++ [.send mac frame]⟩)
  addPeer t mac :=
    ((EspNowRadio.addPeer t.radio mac).1,
      ⟨(EspNowRadio.addPeer t.radio mac).2, t.calls ++ [.add mac (EspNowRadio.addPeer t.radio mac).1.isOk]⟩)
  peerExists t mac := EspNowRadio.peerExists t.radio mac

/-- A peer that is there at the start, or was added. -/
def Peer (radio : R) (calls : List Call) (mac : Addr) : Prop :=
  EspNowRadio.peerExists radio mac = true ∨ .add mac true ∈ calls

/-- A peer is added only if it is none; who is sent to is a peer, or one that may
be missing. -/
def Allowed (radio : R) (missing : List Call → Addr → Prop) (calls : List Call) : Call → Prop
  | .add mac _ => ¬ Peer radio calls mac
  | .send mac _ => Peer radio calls mac ∨ missing calls mac

/-- The driver knows the peers that were added, and all calls are allowed. -/
structure Kept (radio : R) (missing : List Call → Addr → Prop) (t : Tap R) : Prop where
  each : Each (Allowed radio missing) t.calls
  peers : ∀ mac, EspNowRadio.peerExists t.radio mac = true ↔ Peer radio t.calls mac

variable {radio : R} {missing : List Call → Addr → Prop} {t : Tap R}

theorem kept_nil (radio : R) (missing : List Call → Addr → Prop) : Kept radio missing ⟨radio, []⟩ :=
  ⟨.nil, fun mac => ⟨.inl, fun h => h.resolve_right (by simp)⟩⟩

theorem peer_append {calls : List Call} {a : Addr} (c : Call) :
    Peer radio (calls ++ [c]) a ↔ Peer radio calls a ∨ c = .add a true := by
  simp only [Peer, List.mem_append, List.mem_singleton, or_assoc, eq_comm]

variable [LawfulEspNowRadio R]

theorem Kept.addPeer (h : Kept radio missing t) {mac : Addr} (hn : EspNowRadio.peerExists t.radio mac = false) :
    Kept radio missing (EspNowRadio.addPeer t mac).2 := by
  refine ⟨.snoc h.each fun hp => ?_, fun a => ?_⟩
  · rw [(h.peers mac).mpr hp] at hn
    cases hn
  · show EspNowRadio.peerExists (EspNowRadio.addPeer t.radio mac).2 a = true ↔ Peer radio (t.calls ++ [_]) a
    rw [LawfulEspNowRadio.peerExists_addPeer, h.peers, peer_append, Call.add.injEq, eq_comm]

theorem Kept.sendTo (h : Kept radio missing t) {mac : Addr} (hp : Peer radio t.calls mac ∨ missing t.calls mac)
    (frame : List UInt8) : Kept radio missing (EspNowRadio.sendTo t mac frame).2 := by
  refine ⟨.snoc h.each hp, fun a => ?_⟩
  show EspNowRadio.peerExists (EspNowRadio.sendTo t.radio mac frame).2 a = true ↔ Peer radio (t.calls ++ [_]) a
  rw [LawfulEspNowRadio.peerExists_sendTo, h.peers, peer_append]
  simp

/-- The address that frames with this address are sent to. -/
def mac : FrameAddr → Addr
  | .unicast a => a
  | .broadcast => BROADCAST_ADDR

/-- What a call sends. -/
def Call.sent : Call → Option (Addr × List UInt8)
  | .send mac frame => some (mac, frame)
  | .add _ _ => none

/-! ## The port -/

inductive Op where
  | ensurePeer (mac : Addr)
  | sendFrame (addr : FrameAddr) (frame : List UInt8)

/-- A call of the port, with what it returns. -/
def portStep (p : EspNowPort (Tap R)) (op : Op) : (Op × Except PortError Unit) × EspNowPort (Tap R) :=
  match op with
  | .ensurePeer mac => ((op, (p.ensurePeer mac).1), (p.ensurePeer mac).2)
  | .sendFrame addr frame => ((op, (TransportPort.sendFrame p addr frame).1), (TransportPort.sendFrame p addr frame).2)

/-- The frame of a call that got a peer for it. -/
def sentBy : Op × Except PortError Unit → Option (Addr × List UInt8)
  | (.ensurePeer _, _) => none
  | (.sendFrame _ _, .error .unsupportedAddr) => none
  | (.sendFrame addr frame, _) => some (mac addr, frame)

omit [LawfulEspNowRadio R]

/-- Sending to a peer. -/
theorem sendTo_eq (p : EspNowPort (Tap R)) (mac : Addr) (frame : List UInt8) :
    (p.sendTo mac frame).2 = ⟨(EspNowRadio.sendTo p.radio mac frame).2⟩ ∧
      (p.sendTo mac frame).1 ≠ .error .unsupportedAddr := by
  rw [EspNowPort.sendTo]
  split
  · rename_i heq
    rw [heq]
    exact ⟨rfl, fun h => by cases h⟩
  · rename_i heq
    rw [heq]
    exact ⟨rfl, fun h => by cases h⟩

section SendFrame

variable {p : EspNowPort (Tap R)} {addr : FrameAddr} (frame : List UInt8)

theorem sendFrame_peer (h : EspNowRadio.peerExists p.radio (mac addr) = true) :
    TransportPort.sendFrame p addr frame = p.sendTo (mac addr) frame := by
  cases addr <;> simp only [mac] at h <;> simp [TransportPort.sendFrame, mac, h]

variable {t : Tap R} (h : EspNowRadio.peerExists p.radio (mac addr) = false)

include h

theorem sendFrame_refused {e : EspNowRadio.Error (Tap R)} (ha : EspNowRadio.addPeer p.radio (mac addr) = (.error e, t)) :
    TransportPort.sendFrame p addr frame = (.error .unsupportedAddr, ⟨t⟩) := by
  cases addr <;> simp only [mac] at h ha <;> simp [TransportPort.sendFrame, h, ha]

theorem sendFrame_added (ha : EspNowRadio.addPeer p.radio (mac addr) = (.ok (), t)) :
    TransportPort.sendFrame p addr frame = EspNowPort.sendTo ⟨t⟩ (mac addr) frame := by
  cases addr <;> simp only [mac] at h ha <;> simp [TransportPort.sendFrame, mac, h, ha]

end SendFrame

theorem sentBy_sendFrame {addr : FrameAddr} {frame : List UInt8} {res : Except PortError Unit}
    (h : res ≠ .error .unsupportedAddr) : sentBy (.sendFrame addr frame, res) = some (mac addr, frame) := by
  unfold sentBy
  split
  · rename_i heq
    cases heq
  · rename_i heq
    cases heq
    exact absurd rfl h
  · rename_i heq
    cases heq
    rfl

/-- Adding a peer that is none. -/
theorem addPeer_eq (t : Tap R) (mac : Addr) :
    (∃ e, EspNowRadio.addPeer t mac = (.error e, (EspNowRadio.addPeer t mac).2) ∧
        (EspNowRadio.addPeer t mac).2.calls = t.calls ++ [.add mac false]) ∨
      EspNowRadio.addPeer t mac = (.ok (), (EspNowRadio.addPeer t mac).2) ∧
        (EspNowRadio.addPeer t mac).2.calls = t.calls ++ [.add mac true] := by
  cases h : (EspNowRadio.addPeer t.radio mac).1 with
  | error e => exact .inl ⟨e, Prod.ext h rfl, by simp [EspNowRadio.addPeer, h, Except.isOk, Except.toBool]⟩
  | ok u => exact .inr ⟨Prod.ext h rfl, by simp [EspNowRadio.addPeer, h, Except.isOk, Except.toBool]⟩

/-- After some calls of the port. -/
structure After (radio : R) (os : List (Op × Except PortError Unit)) (p : EspNowPort (Tap R)) : Prop where
  kept : Kept radio (fun _ _ => False) p.radio
  sent : p.radio.calls.filterMap Call.sent = os.filterMap sentBy

variable {os : List (Op × Except PortError Unit)} {p : EspNowPort (Tap R)}

variable [LawfulEspNowRadio R]

theorem After.sends (h : After radio os p) {addr : FrameAddr} {frame : List UInt8}
    (hp : EspNowRadio.peerExists p.radio (mac addr) = true) :
    After radio (os ++ [(.sendFrame addr frame, (p.sendTo (mac addr) frame).1)]) (p.sendTo (mac addr) frame).2 := by
  obtain ⟨hsend, hne⟩ := sendTo_eq p (mac addr) frame
  rw [hsend]
  refine ⟨h.kept.sendTo (.inl ((h.kept.peers _).mp hp)) frame, ?_⟩
  show (p.radio.calls ++ [Call.send (mac addr) frame]).filterMap Call.sent = _
  rw [List.filterMap_append, List.filterMap_append, h.sent, List.filterMap_cons_some (sentBy_sendFrame hne)]
  rfl

/-- A peer is added, or refused. -/
theorem After.adds (h : After radio os p) {mac : Addr} (hn : EspNowRadio.peerExists p.radio mac = false) :
    After radio os ⟨(EspNowRadio.addPeer p.radio mac).2⟩ := by
  refine ⟨h.kept.addPeer hn, ?_⟩
  show (p.radio.calls ++ [Call.add mac _]).filterMap Call.sent = _
  rw [List.filterMap_append, h.sent]
  exact List.append_nil _

omit [LawfulEspNowRadio R] in
theorem After.silent (h : After radio os p) {o : Op × Except PortError Unit} (ho : sentBy o = none) :
    After radio (os ++ [o]) p := by
  refine ⟨h.kept, ?_⟩
  rw [h.sent, List.filterMap_append, List.filterMap_cons_none ho, List.filterMap_nil, List.append_nil]

theorem After.step (h : After radio os p) (op : Op) : After radio (os ++ [(portStep p op).1]) (portStep p op).2 := by
  cases op with
  | ensurePeer mac =>
    simp only [portStep, EspNowPort.ensurePeer]
    cases hp : EspNowRadio.peerExists p.radio mac with
    | true => exact h.silent rfl
    | false =>
      rcases addPeer_eq p.radio mac with ⟨e, heq, -⟩ | ⟨heq, -⟩
      · rw [heq]
        exact (h.adds hp).silent rfl
      · rw [heq]
        exact (h.adds hp).silent rfl
  | sendFrame addr frame =>
    rw [portStep]
    cases hp : EspNowRadio.peerExists p.radio (mac addr) with
    | true =>
      rw [sendFrame_peer frame hp]
      exact h.sends hp
    | false =>
      have hadded := h.adds hp
      rcases addPeer_eq p.radio (mac addr) with ⟨e, heq, -⟩ | ⟨heq, hcalls⟩
      · rw [sendFrame_refused frame hp heq]
        exact hadded.silent rfl
      · have hpeer : EspNowRadio.peerExists (EspNowRadio.addPeer p.radio (mac addr)).2 (mac addr) = true := by
          refine (hadded.kept.peers _).mpr (.inr ?_)
          show _ ∈ (EspNowRadio.addPeer p.radio (mac addr)).2.calls
          simp [hcalls]
        rw [sendFrame_added frame hp heq]
        exact hadded.sends hpeer

end EspNow

/-- In any run of calls of an ESP-NOW port, from the start: a peer is only added
when it is none; a frame is only sent to a peer that was there or has been added;
and what is sent are the frames of the calls, in order and each to its address, but
for those whose peer was refused. -/
theorem port_registers {R : Type} [EspNowRadio R] [LawfulEspNowRadio R] (radio : R) (ops : List EspNow.Op) :
    let out := run EspNow.portStep ⟨⟨radio, []⟩⟩ ops
    let calls := out.2.radio.calls
    (∀ pre mac ok post, calls = pre ++ .add mac ok :: post → ¬ EspNow.Peer radio pre mac) ∧
    (∀ pre mac frame post, calls = pre ++ .send mac frame :: post → EspNow.Peer radio pre mac) ∧
    calls.filterMap EspNow.Call.sent = out.1.filterMap EspNow.sentBy := by
  intro out calls
  have h : EspNow.After radio out.1 out.2 :=
    @run_history _ _ _ EspNow.portStep (fun _ os p => EspNow.After radio os p) (fun _ _ _ op h => h.step op)
      ⟨⟨radio, []⟩⟩ ⟨EspNow.kept_nil _ _, rfl⟩ ops
  refine ⟨fun pre mac ok post hc => h.kept.each.of_split hc, fun pre mac frame post hc => ?_, h.sent⟩
  exact (h.kept.each.of_split hc).resolve_right id

/-- A driver with room for 20 peers. -/
structure ExampleRadio where
  peers : List Addr

instance : EspNowRadio ExampleRadio where
  Error := Unit
  sendTo r mac _ := (if mac ∈ r.peers then .ok () else .error (), r)
  addPeer r mac := if r.peers.length < 20 then (.ok (), ⟨mac :: r.peers⟩) else (.error (), r)
  peerExists r mac := decide (mac ∈ r.peers)

instance : LawfulEspNowRadio ExampleRadio where
  peerExists_addPeer r mac a := by
    by_cases h : r.peers.length < 20
    · simp [EspNowRadio.addPeer, EspNowRadio.peerExists, h, or_comm, Except.isOk, Except.toBool]
    · simp [EspNowRadio.addPeer, EspNowRadio.peerExists, h, Except.isOk, Except.toBool]
  peerExists_sendTo _ _ _ _ := rfl

theorem port_registers_three :
    let out := run EspNow.portStep ⟨⟨ExampleRadio.mk [], []⟩⟩
      [.sendFrame (.unicast (nodeAddr 7)) [1], .ensurePeer (nodeAddr 7), .sendFrame .broadcast [2]]
    out.2.radio.calls.filterMap EspNow.Call.sent = out.1.filterMap EspNow.sentBy :=
  (port_registers (ExampleRadio.mk [])
    [.sendFrame (.unicast (nodeAddr 7)) [1], .ensurePeer (nodeAddr 7), .sendFrame .broadcast [2]]).2.2

namespace EspNow

variable {R : Type} [EspNowRadio R]

/-! ## The loop -/

/-- A peer that the driver has refused; the broadcast address is not tried again. -/
def Refused (calls : List Call) (mac : Addr) : Prop := mac = BROADCAST_ADDR ∨ .add mac false ∈ calls

/-- What an event sends. -/
def Sends : EspNowLoop.Event → Option (Addr × List UInt8)
  | .receive _ _ => none
  | .transmit addr msg => some (mac addr, msg.wire)

variable {radio : R} {l : EspNowLoop (Tap R)}

theorem step_receive (l : EspNowLoop (Tap R)) (src : Addr) (data : List UInt8) :
    (l.step (.receive src data)).2 = l.register src := by
  rw [EspNowLoop.step]
  split <;> rfl

theorem step_transmit (l : EspNowLoop (Tap R)) (addr : FrameAddr) (msg : Message) :
    (l.step (.transmit addr msg)).2 =
      ⟨(EspNowRadio.sendTo (l.register (mac addr)).radio (mac addr) msg.wire).2⟩ := by
  cases addr <;> simp [EspNowLoop.step, msg.encode_max_frame, mac]

/-- Nothing is sent to register a peer. -/
theorem sent_register (l : EspNowLoop (Tap R)) (mac : Addr) :
    (l.register mac).radio.calls.filterMap Call.sent = l.radio.calls.filterMap Call.sent := by
  rw [EspNowLoop.register]
  split
  · show (l.radio.calls ++ [Call.add mac _]).filterMap Call.sent = _
    rw [List.filterMap_append]
    exact List.append_nil _
  · rfl

theorem sent_step (l : EspNowLoop (Tap R)) (e : EspNowLoop.Event) :
    (l.step e).2.radio.calls.filterMap Call.sent = l.radio.calls.filterMap Call.sent ++ [e].filterMap Sends := by
  cases e with
  | receive src data =>
    rw [step_receive, sent_register]
    exact (List.append_nil _).symm
  | transmit addr msg =>
    rw [step_transmit]
    show ((l.register (mac addr)).radio.calls ++ [Call.send (mac addr) msg.wire]).filterMap Call.sent = _
    rw [List.filterMap_append, sent_register]
    rfl

/-- What the loop sends is what it takes from the queue, whatever the driver does. -/
theorem sent_run (start : R) (events : List EspNowLoop.Event) :
    (run EspNowLoop.step (⟨⟨start, []⟩⟩ : EspNowLoop (Tap R)) events).2.radio.calls.filterMap Call.sent =
      events.filterMap Sends := by
  refine @run_history _ _ _ EspNowLoop.step
    (fun es _ (l : EspNowLoop (Tap R)) => l.radio.calls.filterMap Call.sent = es.filterMap Sends)
    (fun es _ l e h => ?_) ⟨⟨start, []⟩⟩ rfl events
  rw [sent_step, h, List.filterMap_append]

variable [LawfulEspNowRadio R]

theorem Kept.register (h : Kept radio Refused l.radio) (mac : Addr) :
    Kept radio Refused (l.register mac).radio ∧
      (Peer radio (l.register mac).radio.calls mac ∨ Refused (l.register mac).radio.calls mac) := by
  rw [EspNowLoop.register]
  by_cases hb : mac = BROADCAST_ADDR
  · rw [if_neg fun hc => hc.1 hb]
    exact ⟨h, .inr (.inl hb)⟩
  · cases hp : EspNowRadio.peerExists l.radio mac with
    | true =>
      rw [if_neg (by simp)]
      exact ⟨h, .inl ((h.peers mac).mp hp)⟩
    | false =>
      rw [if_pos ⟨hb, rfl⟩]
      refine ⟨h.addPeer hp, ?_⟩
      rcases addPeer_eq l.radio mac with ⟨e, -, hcalls⟩ | ⟨-, hcalls⟩
      · refine .inr (.inr ?_)
        show _ ∈ (EspNowRadio.addPeer l.radio mac).2.calls
        simp [hcalls]
      · refine .inl (.inr ?_)
        show _ ∈ (EspNowRadio.addPeer l.radio mac).2.calls
        simp [hcalls]

theorem Kept.step (h : Kept radio Refused l.radio) (e : EspNowLoop.Event) : Kept radio Refused (l.step e).2.radio := by
  cases e with
  | receive src data =>
    rw [step_receive]
    exact (h.register src).1
  | transmit addr msg =>
    obtain ⟨hreg, hpeer⟩ := h.register (mac addr)
    rw [step_transmit]
    exact hreg.sendTo hpeer msg.wire

theorem kept_run (start : R) (events : List EspNowLoop.Event) :
    Kept start Refused (run EspNowLoop.step (⟨⟨start, []⟩⟩ : EspNowLoop (Tap R)) events).2.radio :=
  @run_history _ _ _ EspNowLoop.step (fun _ _ l => Kept start Refused l.radio) (fun _ _ _ e h => h.step e) ⟨⟨start, []⟩⟩
    (kept_nil _ _) events

end EspNow

/-- In any run of the loop of ESP-NOW, from its start: a peer is only added when it
is none; every message of the queue is sent, in order and to its address; and one
that is sent to an address that is no peer was sent to an address that the driver
has refused, or to all. -/
theorem loop_registers {R : Type} [EspNowRadio R] [LawfulEspNowRadio R] (radio : R) (events : List EspNowLoop.Event) :
    let start := (EspNowLoop.start radio).radio
    let calls := (run EspNowLoop.step (⟨⟨start, []⟩⟩ : EspNowLoop (EspNow.Tap R)) events).2.radio.calls
    (∀ pre mac ok post, calls = pre ++ .add mac ok :: post → ¬ EspNow.Peer start pre mac) ∧
    (∀ pre mac frame post, calls = pre ++ .send mac frame :: post →
      EspNow.Peer start pre mac ∨ EspNow.Refused pre mac) ∧
    calls.filterMap EspNow.Call.sent = events.filterMap EspNow.Sends := by
  intro start calls
  have h := EspNow.kept_run start events
  exact ⟨fun pre mac ok post hc => h.each.of_split hc, fun pre mac frame post hc => h.each.of_split hc,
    EspNow.sent_run start events⟩

theorem loop_registers_reply :
    let start := (EspNowLoop.start (ExampleRadio.mk [])).radio
    (run EspNowLoop.step (⟨⟨start, []⟩⟩ : EspNowLoop (EspNow.Tap ExampleRadio))
      [.receive (nodeAddr 7) [1], .transmit (.unicast (nodeAddr 7)) exampleMessage]).2.radio.calls.filterMap
        EspNow.Call.sent = [(nodeAddr 7, exampleMessage.wire)] :=
  (loop_registers (ExampleRadio.mk [])
    [.receive (nodeAddr 7) [1], .transmit (.unicast (nodeAddr 7)) exampleMessage]).2.2

end RelayStar
