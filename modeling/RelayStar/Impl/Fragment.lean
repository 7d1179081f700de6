import RelayStar.Impl.Port

/-!
# Fragmentation and reassembly (`fragment.rs`)

`Fragmenter.split` cuts a message into frames for a transport, and
`Reassembler.ingest` puts the slices of several groups together again, in a
fixed number of slots. An index out of the range of an array, at which the
source would stop, reads an empty bucket here and writes nothing;
`Reassembler.ingestChecked` is the same with the checks of the source.
-/

namespace RelayStar

/-- Upper bound on the fragments of one message. -/
def MAX_FRAGMENTS : Nat := 32

namespace Fragmenter

/-- An unfragmented message, if its payload fits one. -/
def prepare (id : UInt32) (ttl : UInt8) (origin : Transport) (fromAddr toAddr : Addr) (kind : MsgKind)
    (payload : List UInt8) : Except RelayError Message :=
  match (HVec.empty : Payload).extendFromSlice payload with
  | none => .error (.protocol .payloadTooLarge)
  | some payload => .ok ⟨id, ttl, origin, fromAddr, toAddr, kind, payload, none⟩

def single (msg : Message) : Except RelayError (HVec Message MAX_FRAGMENTS) :=
  match HVec.empty.push msg with
  | none => .error .payloadUnfragmentable
  | some out => .ok out

/-- The frame of slice `seq`. -/
def slice (msg : Message) (mtu total : Nat) (groupId : UInt32) (seq : Nat) : Except RelayError Message :=
  let start := seq * mtu
  let stop := min (start + mtu) msg.payload.len
  match (HVec.empty : Payload).extendFromSlice ((msg.payload.toList.drop start).take (stop - start)) with
  | none => .error .payloadUnfragmentable
  | some payload => .ok { msg with
      payload, frag := some ⟨groupId, UInt16.ofNat seq, UInt16.ofNat total⟩ }

/-- The loop over the slices. -/
def slices (msg : Message) (mtu total : Nat) (groupId : UInt32) :
    List Nat → HVec Message MAX_FRAGMENTS → Except RelayError (HVec Message MAX_FRAGMENTS)
  | [], out => .ok out
  | seq :: seqs, out => match slice msg mtu total groupId seq with
    | .error e => .error e
    | .ok frame => match out.push frame with
      | none => .error .payloadUnfragmentable
      | some out => slices msg mtu total groupId seqs out

/-- Split `msg` into frames for `target`; a slice is not split again. -/
def split (msg : Message) (target : Transport) (groupId : UInt32) :
    Except RelayError (HVec Message MAX_FRAGMENTS) :=
  let mtu := min target.maxPayload MAX_PAYLOAD
  if mtu = 0 then .error .payloadUnfragmentable
  else if msg.payload.len ≤ mtu ∧ msg.frag = none then single msg
  else if msg.frag ≠ none then single msg
  else
    let total := (msg.payload.len + mtu - 1) / mtu
    if total > MAX_FRAGMENTS ∨ total > 65535 then .error .payloadUnfragmentable
    else slices msg mtu total groupId (List.range total) .empty

end Fragmenter

/-- Why a slice was dropped. -/
inductive RejectReason where
  | noSlot
  | badHeader
  | duplicateSlice
  | payloadTooLarge
deriving DecidableEq

inductive ReassembleOutcome where
  | passthrough (m : Message)
  | buffered
  | complete (m : Message)
  | dropped (reason : RejectReason)
deriving DecidableEq

/-- Reassembly state of one group. -/
structure Slot (PER_SLOT : Nat) where
  inUse : Bool
  groupId : UInt32
  total : UInt16
  received : UInt16
  seenMask : UInt64
  fragments : Vector Payload PER_SLOT
  template : Option Message

namespace Slot

variable {PER_SLOT : Nat}

def new : Slot PER_SLOT where
  inUse := false
  groupId := 0
  total := 0
  received := 0
  seenMask := 0
  fragments := Vector.replicate PER_SLOT .empty
  template := none

def reset (s : Slot PER_SLOT) : Slot PER_SLOT where
  inUse := false
  groupId := 0
  total := 0
  received := 0
  seenMask := 0
  fragments := s.fragments.map fun _ => .empty
  template := none

/-- The payload stored for slice `seq`. -/
def bucket (s : Slot PER_SLOT) (seq : Nat) : Payload := s.fragments[seq]?.getD .empty

/-- Whether the slot assembles the group `groupId` of `total` slices. -/
def tracks (groupId : UInt32) (total : UInt16) (s : Slot PER_SLOT) : Bool :=
  s.inUse && s.groupId == groupId && s.total == total

/-- Start assembling the group of `msg`. -/
def claim (s : Slot PER_SLOT) (groupId : UInt32) (total : UInt16) (msg : Message) : Slot PER_SLOT :=
  { s with
    inUse := true
    groupId := groupId
    total := total
    received := 0
    seenMask := 0
    template := some { msg with payload := .empty, frag := none } }

/-- Copy a slice into its bucket. -/
def store (s : Slot PER_SLOT) (seq : UInt16) (bucket : Payload) : Slot PER_SLOT :=
  { s with
    fragments := s.fragments.setIfInBounds seq.toNat bucket
    seenMask := s.seenMask ||| (1 : UInt64) <<< seq.toUInt64
    received := s.received + 1 }

/-- All slices are in: concatenate them, and free the slot. -/
def assemble (s : Slot PER_SLOT) (msg : Message) : ReassembleOutcome × Slot PER_SLOT :=
  match (HVec.empty : Payload).extendAll
      ((List.range s.total.toNat).map fun seq => (s.bucket seq).toList) with
  | none => (.dropped .payloadTooLarge, s.reset)
  | some assembled =>
    let template := s.template.getD { msg with payload := .empty, frag := none }
    (.complete { template with payload := assembled, frag := none }, s.reset)

/-- The part of `Reassembler.ingest` after the slot of the group is found:
store the slice, and deliver the message if it was the last one. -/
def accept (s : Slot PER_SLOT) (frag : Fragment) (msg : Message) : ReassembleOutcome × Slot PER_SLOT :=
  if s.seenMask &&& (1 : UInt64) <<< frag.seq.toUInt64 ≠ 0 then (.dropped .duplicateSlice, s)
  else match (HVec.empty : Payload).extendFromSlice msg.payload.toList with
  | none => (.dropped .payloadTooLarge, s.reset)
  | some bucket =>
    let s := s.store frag.seq bucket
    if s.received < s.total then (.buffered, s) else s.assemble msg

end Slot

/-- A fixed number of slots. -/
structure Reassembler (SLOTS PER_SLOT : Nat) where
  slots : Vector (Slot PER_SLOT) SLOTS

namespace Reassembler

variable {SLOTS PER_SLOT : Nat}

def new : Reassembler SLOTS PER_SLOT := ⟨Vector.replicate SLOTS .new⟩

/-- The first slot satisfying `p`. -/
def find (r : Reassembler SLOTS PER_SLOT) (p : Slot PER_SLOT → Bool) : Option (Fin SLOTS) :=
  (List.finRange SLOTS).find? fun i => p (r.slots.get i)

def setSlot (r : Reassembler SLOTS PER_SLOT) (i : Fin SLOTS) (s : Slot PER_SLOT) :
    Reassembler SLOTS PER_SLOT := ⟨r.slots.set i s i.isLt⟩

/-- The slot of the group, or else the first free one, claimed for it. -/
def findOrClaim (r : Reassembler SLOTS PER_SLOT) (groupId : UInt32) (total : UInt16) (msg : Message) :
    Option (Fin SLOTS) × Reassembler SLOTS PER_SLOT :=
  match r.find (Slot.tracks groupId total) with
  | some i => (some i, r)
  | none => match r.find (!Slot.inUse ·) with
    | some i => (some i, r.setSlot i ((r.slots.get i).claim groupId total msg))
    | none => (none, r)

def ingest (r : Reassembler SLOTS PER_SLOT) (msg : Message) :
    ReassembleOutcome × Reassembler SLOTS PER_SLOT :=
  match msg.frag with
  | none => (.passthrough msg, r)
  | some frag =>
    if frag.total = 0 ∨ frag.seq ≥ frag.total ∨ frag.total.toNat > PER_SLOT ∨ frag.total > 64 then
      (.dropped .badHeader, r)
    else match r.findOrClaim frag.groupId frag.total msg with
    | (none, r) => (.dropped .noSlot, r)
    | (some i, r) => (((r.slots.get i).accept frag msg).1, r.setSlot i ((r.slots.get i).accept frag msg).2)

/-- Forget the first slot assembling `groupId`, if there is one. -/
def evict (r : Reassembler SLOTS PER_SLOT) (groupId : UInt32) : Bool × Reassembler SLOTS PER_SLOT :=
  match r.find (fun s => s.inUse && s.groupId == groupId) with
  | some i => (true, r.setSlot i (r.slots.get i).reset)
  | none => (false, r)

/-- The number of slots in use. -/
def inFlight (r : Reassembler SLOTS PER_SLOT) : Nat := r.slots.toList.countP Slot.inUse

end Reassembler

/-! ## Ingesting with the checks of the source

The same, but `none` where an index, a shift or an increment of the source would
be out of range. -/

namespace Slot

variable {PER_SLOT : Nat}

/-- The loop that concatenates the buckets; it ends when they do not fit. -/
def concatChecked (s : Slot PER_SLOT) : List Nat → Payload → Option (Option Payload)
  | [], assembled => some (some assembled)
  | seq :: seqs, assembled => match s.fragments[seq]? with
    | none => none
    | some bucket => match assembled.extendFromSlice bucket.toList with
      | none => some none
      | some assembled => concatChecked s seqs assembled

def assembleChecked (s : Slot PER_SLOT) (msg : Message) : Option (ReassembleOutcome × Slot PER_SLOT) := do
  match ← s.concatChecked (List.range s.total.toNat) .empty with
  | none => return (.dropped .payloadTooLarge, s.reset)
  | some assembled =>
    let template := s.template.getD { msg with payload := .empty, frag := none }
    return (.complete { template with payload := assembled, frag := none }, s.reset)

def acceptChecked (s : Slot PER_SLOT) (frag : Fragment) (msg : Message) :
    Option (ReassembleOutcome × Slot PER_SLOT) := do
  guard (frag.seq.toNat < 64)
  if s.seenMask &&& (1 : UInt64) <<< frag.seq.toUInt64 ≠ 0 then return (.dropped .duplicateSlice, s)
  guard (frag.seq.toNat < PER_SLOT)
  match (HVec.empty : Payload).extendFromSlice msg.payload.toList with
  | none => return (.dropped .payloadTooLarge, s.reset)
  | some bucket =>
    guard (s.received.toNat + 1 < 65536)
    let s := s.store frag.seq bucket
    if s.received < s.total then return (.buffered, s)
    s.assembleChecked msg

end Slot

def Reassembler.ingestChecked {SLOTS PER_SLOT : Nat} (r : Reassembler SLOTS PER_SLOT) (msg : Message) :
    Option (ReassembleOutcome × Reassembler SLOTS PER_SLOT) :=
  match msg.frag with
  | none => some (.passthrough msg, r)
  | some frag =>
    if frag.total = 0 ∨ frag.seq ≥ frag.total ∨ frag.total.toNat > PER_SLOT ∨ frag.total > 64 then
      some (.dropped .badHeader, r)
    else match r.findOrClaim frag.groupId frag.total msg with
    | (none, r) => some (.dropped .noSlot, r)
    | (some i, r) => ((r.slots.get i).acceptChecked frag msg).map fun x => (x.1, r.setSlot i x.2)

end RelayStar
