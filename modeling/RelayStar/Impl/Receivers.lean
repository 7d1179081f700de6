import RelayStar.Impl.Port

/-!
# The receiver table (`receivers.rs`)

Which peers are reachable on which transports: rows of an address and a bitmap
of transports, in no particular order, removed by moving the last one into the
gap.
-/

namespace RelayStar

/-- A set of transports, one bit each. -/
structure TransportBitmap where
  bits : UInt8
deriving DecidableEq

namespace TransportBitmap

def empty : TransportBitmap := ⟨0⟩

def bit : Transport → UInt8
  | .lora => (1 : UInt8) <<< 0
  | .mqtt => (1 : UInt8) <<< 1
  | .espNow => (1 : UInt8) <<< 2

def contains (b : TransportBitmap) (t : Transport) : Bool := b.bits &&& bit t != 0

/-- Whether `t` was added, and the set with it. -/
def insert (b : TransportBitmap) (t : Transport) : Bool × TransportBitmap :=
  (!b.contains t, ⟨b.bits ||| bit t⟩)

/-- Whether `t` was removed, and the set without it. -/
def remove (b : TransportBitmap) (t : Transport) : Bool × TransportBitmap :=
  (b.contains t, ⟨b.bits &&& ~~~bit t⟩)

def isEmpty (b : TransportBitmap) : Bool := b.bits == 0

def iter (b : TransportBitmap) : List Transport := Transport.ALL.filter b.contains

end TransportBitmap

/-- A row of the table. -/
structure Receiver where
  addr : Addr
  transports : TransportBitmap
deriving DecidableEq

/-- Maximum number of transports of a row. -/
def MAX_TRANSPORTS : Nat := 3

namespace Receiver

/-- The transports of the row, in the order of `Transport.ALL`. -/
def iter (row : Receiver) : List Transport := row.transports.iter

def reachableVia (row : Receiver) (t : Transport) : Bool := row.transports.contains t

end Receiver

structure ReceiverTable (N : Nat) where
  entries : HVec Receiver N

namespace ReceiverTable

variable {N : Nat}

def new : ReceiverTable N := ⟨.empty⟩

/-- The number of peers. -/
def len (r : ReceiverTable N) : Nat := r.entries.len

def lookup (r : ReceiverTable N) (addr : Addr) : Option Receiver :=
  r.entries.toList.find? fun row => row.addr == addr

/-- The index of the row of `addr`. -/
def position (r : ReceiverTable N) (addr : Addr) : Option Nat :=
  r.entries.toList.findIdx? fun row => row.addr == addr

/-- `addr` is reachable via `t`: whether this is new, and the table with it. -/
def add (r : ReceiverTable N) (addr : Addr) (t : Transport) : Except RelayError Bool × ReceiverTable N :=
  match r.position addr, r.lookup addr with
  | some i, some row =>
    (.ok (row.transports.insert t).1, ⟨r.entries.set i ⟨row.addr, (row.transports.insert t).2⟩⟩)
  | _, _ => match r.entries.push ⟨addr, (TransportBitmap.empty.insert t).2⟩ with
    | some entries => (.ok true, ⟨entries⟩)
    | none => (.error .receiverTableFull, r)

/-- As `add`, without the error of a full table. -/
def learn (r : ReceiverTable N) (addr : Addr) (t : Transport) : Bool × ReceiverTable N :=
  match r.add addr t with
  | (.ok b, r) => (b, r)
  | (.error _, r) => (false, r)

/-- `addr` is not reachable via `t`, and has no row if it is not reachable at all:
whether this is new. -/
def removeTransport (r : ReceiverTable N) (addr : Addr) (t : Transport) : Bool × ReceiverTable N :=
  match r.position addr, r.lookup addr with
  | some i, some row =>
    let entries := r.entries.set i ⟨row.addr, (row.transports.remove t).2⟩
    ((row.transports.remove t).1,
      if (row.transports.remove t).2.isEmpty then ⟨entries.swapRemove i⟩ else ⟨entries⟩)
  | _, _ => (false, r)

/-- Remove the row of `addr`, if there is one. -/
def remove (r : ReceiverTable N) (addr : Addr) : Bool × ReceiverTable N :=
  match r.position addr with
  | some i => (true, ⟨r.entries.swapRemove i⟩)
  | none => (false, r)

def clear (_ : ReceiverTable N) : ReceiverTable N := ⟨.empty⟩

/-- The transports of `addr`: one that does not fit the buffer is left out. -/
def transportsFor (r : ReceiverTable N) (addr : Addr) : Option (HVec Transport MAX_TRANSPORTS) :=
  (r.lookup addr).map fun row => row.iter.foldl (fun out t => (out.push t).getD out) .empty

end ReceiverTable

end RelayStar
