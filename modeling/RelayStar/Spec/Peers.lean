import Mathlib.Data.Finset.Basic
import Mathlib.Data.Set.Card
import RelayStar.Impl.Receivers

/-!
# Peers and their transports

What the receiver table stands for: a map from addresses to sets of transports,
of at most `N` addresses, with the calls that change it. A call answers whether
it did; an address that is new is refused when there are `N`.
-/

namespace RelayStar

/-- A call that may change a receiver table. -/
inductive ReceiverTable.Call where
  | add (addr : Addr) (t : Transport)
  | learn (addr : Addr) (t : Transport)
  | removeTransport (addr : Addr) (t : Transport)
  | remove (addr : Addr)
  | clear

/-- The address that a call asks for a row for. -/
def ReceiverTable.Call.asks : ReceiverTable.Call → Option Addr
  | .add addr _ => some addr
  | .learn addr _ => some addr
  | _ => none

namespace Spec

/-- The transports of every address that has some. -/
abbrev PeerMap := Addr → Option (Finset Transport)

namespace PeerMap

def empty : PeerMap := fun _ => none

/-- The number of addresses. -/
noncomputable def size (m : PeerMap) : Nat := {addr | m addr ≠ none}.ncard

def insert (m : PeerMap) (addr : Addr) (t : Transport) : PeerMap :=
  Function.update m addr (some (Insert.insert t ((m addr).getD ∅)))

/-- An address whose last transport is deleted is erased. -/
def delete (m : PeerMap) (addr : Addr) (t : Transport) : PeerMap :=
  match m addr with
  | none => m
  | some ts => Function.update m addr (if ts.erase t = ∅ then none else some (ts.erase t))

def erase (m : PeerMap) (addr : Addr) : PeerMap := Function.update m addr none

/-- An address is refused if it is new and there is no room. -/
def Full (N : Nat) (m : PeerMap) (addr : Addr) : Prop := m addr = none ∧ m.size = N

open Classical in
/-- Whether the map is another. -/
noncomputable def changed (m m' : PeerMap) : Bool := decide (m' ≠ m)

open Classical in
/-- The answer of a call, if it has one, and the map after it. -/
noncomputable def call (N : Nat) (m : PeerMap) :
    ReceiverTable.Call → Option (Except RelayError Bool) × PeerMap
  | .add addr t =>
    if Full N m addr then (some (.error .receiverTableFull), m)
    else (some (.ok (changed m (m.insert addr t))), m.insert addr t)
  | .learn addr t =>
    if Full N m addr then (some (.ok false), m)
    else (some (.ok (changed m (m.insert addr t))), m.insert addr t)
  | .removeTransport addr t => (some (.ok (changed m (m.delete addr t))), m.delete addr t)
  | .remove addr => (some (.ok (changed m (m.erase addr))), m.erase addr)
  | .clear => (none, empty)

theorem insert_of_ne {m : PeerMap} {a addr : Addr} (h : addr ≠ a) (hm : m a = none) (t : Transport) :
    (m.insert addr t) a = none := by
  rw [insert, Function.update_of_ne h.symm, hm]

/-- A call makes no row but one that it asks for. -/
theorem call_of_not_asked {N : Nat} {m : PeerMap} {c : ReceiverTable.Call} {a : Addr} (h : c.asks ≠ some a)
    (hm : m a = none) : (m.call N c).2 a = none := by
  cases c with
  | add addr t =>
    rw [call]
    split
    · exact hm
    · exact insert_of_ne (fun e => h (congrArg some e)) hm t
  | learn addr t =>
    rw [call]
    split
    · exact hm
    · exact insert_of_ne (fun e => h (congrArg some e)) hm t
  | removeTransport addr t =>
    show (m.delete addr t) a = none
    rw [delete]
    cases haddr : m addr with
    | none => exact hm
    | some ts =>
      have hne : a ≠ addr := fun e => by
        rw [e, haddr] at hm
        cases hm
      exact (Function.update_of_ne hne ..).trans hm
  | remove addr =>
    show Function.update m addr none a = none
    rw [Function.update_apply, hm, ite_self]
  | clear => rfl

end PeerMap

end Spec

end RelayStar
