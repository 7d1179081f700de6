import Mathlib.Data.List.Basic

/-!
# Readers of a byte stream

A reader takes a stream one byte at a time: it ends with a value or with an
error, or waits for the next byte (`Reader`). A waiting reader is the state of a
computation that is suspended in the middle of its reads; to drop it is to lose
what it has read.

`feed` gives a reader the bytes that are there. It does not matter in which
chunks they come (`feed_append`). `Reads r bytes a` says that `r` reads `a` from
exactly `bytes`: whatever follows them stays in the stream (`Reads.feed`), and on
any proper beginning of them `r` waits (`Reads.wait`). Readers that read their
parts of a stream read the whole of it in turn (`feedAll_reads`).
-/

namespace RelayStar

/-- A computation that reads bytes. -/
inductive Reader (ε α : Type) where
  | done (a : α)
  | error (e : ε)
  | wait (k : UInt8 → Reader ε α)

namespace Reader

variable {ε α β : Type}

/-- Read with `r`, then go on with its value. -/
def bind : Reader ε α → (α → Reader ε β) → Reader ε β
  | done a, f => f a
  | error e, _ => error e
  | wait k, f => wait fun b => (k b).bind f

instance : Monad (Reader ε) where
  pure := done
  bind := bind

/-- Read one byte. -/
def byte : Reader ε UInt8 := wait done

/-- Read `n` bytes. -/
def take : Nat → Reader ε (List UInt8)
  | 0 => done []
  | n + 1 => wait fun b => (take n).bind fun bs => done (b :: bs)

/-- What becomes of a reader that is given bytes, and the bytes it leaves. -/
def feed : Reader ε α → List UInt8 → Reader ε α × List UInt8
  | wait k, b :: bs => feed (k b) bs
  | r, bs => (r, bs)

@[simp] theorem feed_nil (r : Reader ε α) : r.feed [] = (r, []) := by cases r <;> rfl
@[simp] theorem feed_done (a : α) (bs : List UInt8) : (done a : Reader ε α).feed bs = (done a, bs) := rfl
@[simp] theorem feed_error (e : ε) (bs : List UInt8) : (error e : Reader ε α).feed bs = (error e, bs) := rfl

/-- Bytes that come in two chunks are read like bytes that come at once. -/
theorem feed_append (r : Reader ε α) (xs ys : List UInt8) :
    r.feed (xs ++ ys) = (r.feed xs).1.feed ((r.feed xs).2 ++ ys) := by
  induction xs generalizing r with
  | nil => rw [feed_nil, List.nil_append]
  | cons b xs ih =>
    cases r with
    | done a => rfl
    | error e => rfl
    | wait k => exact ih (k b)

/-- A reader that still waits has read all there was. -/
theorem rest_of_wait {r : Reader ε α} {bs rest : List UInt8} {k : UInt8 → Reader ε α}
    (h : r.feed bs = (wait k, rest)) : rest = [] := by
  induction bs generalizing r with
  | nil =>
    rw [feed_nil] at h
    exact (Prod.mk.inj h).2.symm
  | cons b bs ih =>
    cases r with
    | done a => cases h
    | error e => cases h
    | wait k' => exact ih h

theorem feed_bind (r : Reader ε α) (f : α → Reader ε β) (bs : List UInt8) :
    (r.bind f).feed bs = match r.feed bs with
      | (done a, rest) => (f a).feed rest
      | (error e, rest) => (error e, rest)
      | (wait k, rest) => (wait fun b => (k b).bind f, rest) := by
  induction bs generalizing r with
  | nil => rw [feed_nil]; cases r <;> simp only [bind, feed_nil]
  | cons b bs ih =>
    cases r with
    | done a => rfl
    | error e => rfl
    | wait k => exact ih (k b)

/-- It ends on what it got: there is nothing more that it reads. -/
def Ended : Reader ε α → Prop
  | wait _ => False
  | _ => True

/-- What it ended with, if it did. -/
def result : Reader ε α → Option (Except ε α)
  | done a => some (.ok a)
  | error e => some (.error e)
  | wait _ => none

theorem result_eq_ok {r : Reader ε α} {a : α} : r.result = some (.ok a) ↔ r = done a := by
  cases r <;> simp [result]

theorem result_eq_error {r : Reader ε α} {e : ε} : r.result = some (.error e) ↔ r = error e := by
  cases r <;> simp [result]

theorem Ended.feed {r : Reader ε α} (h : r.Ended) (bs : List UInt8) : r.feed bs = (r, bs) := by
  cases r with
  | done a => rfl
  | error e => rfl
  | wait k => exact h.elim

/-- A reader that only decodes the value read with `r` leaves what `r` leaves. -/
theorem feed_bind_ended {r r' : Reader ε α} {f : α → Reader ε β} (hf : ∀ a, (f a).Ended) {bs rest : List UInt8}
    (h : r.feed bs = (r', rest)) (hr : r'.Ended) : ∃ r'', r''.Ended ∧ (r.bind f).feed bs = (r'', rest) := by
  rw [feed_bind, h]
  cases r' with
  | done a => exact ⟨f a, hf a, (hf a).feed rest⟩
  | error e => exact ⟨.error e, hr, rfl⟩
  | wait k => exact hr.elim

/-- The bytes that `take` takes. -/
theorem feed_take {n : Nat} {bs a rest : List UInt8} (h : (take n : Reader ε (List UInt8)).feed bs = (done a, rest)) :
    bs = a ++ rest ∧ a.length = n := by
  induction n generalizing bs a rest with
  | zero =>
    obtain ⟨ha, rfl⟩ := Prod.mk.inj h
    cases ha
    exact ⟨rfl, rfl⟩
  | succ n ih =>
    cases bs with
    | nil => cases h
    | cons b bs =>
      have hb : ((take n : Reader ε (List UInt8)).bind fun bs => done (b :: bs)).feed bs = (done a, rest) := h
      rw [feed_bind] at hb
      split at hb
      · rename_i hr
        obtain ⟨rfl, rfl⟩ := ih hr
        cases hb
        exact ⟨rfl, rfl⟩
      · cases hb
      · cases hb

/-- Bytes are taken whatever they are. -/
theorem feed_take_ne_error {n : Nat} {bs rest : List UInt8} {e : ε} :
    (take n : Reader ε (List UInt8)).feed bs ≠ (error e, rest) := by
  induction n generalizing bs rest with
  | zero => exact fun h => by cases h
  | succ n ih =>
    cases bs with
    | nil => exact fun h => by cases h
    | cons b bs =>
      intro h
      replace h : ((take n : Reader ε (List UInt8)).bind fun bs => done (b :: bs)).feed bs = (error e, rest) := h
      rw [feed_bind] at h
      split at h
      · cases h
      · rename_i hr
        cases h
        exact ih hr
      · cases h

/-- The reader reads `a` from exactly these bytes. -/
def Reads (r : Reader ε α) (bs : List UInt8) (a : α) : Prop := r.feed bs = (done a, [])

namespace Reads

variable {r : Reader ε α} {bs : List UInt8} {a : α}

/-- What follows stays in the stream. -/
theorem feed (h : Reads r bs a) (rest : List UInt8) : r.feed (bs ++ rest) = (done a, rest) := by
  rw [feed_append, show r.feed bs = _ from h, feed_done, List.nil_append]

/-- A reader that has not got all of the bytes waits for more. -/
theorem wait (h : Reads r bs a) {xs : List UInt8} (hp : xs <+: bs) (hn : xs ≠ bs) :
    ∃ k, r.feed xs = (.wait k, []) := by
  obtain ⟨ys, rfl⟩ := hp
  have happ := feed_append r xs ys
  rw [show r.feed (xs ++ ys) = _ from h] at happ
  cases hr : (r.feed xs).1 with
  | wait k =>
    have hrest := rest_of_wait (Prod.ext hr rfl : r.feed xs = (.wait k, (r.feed xs).2))
    exact ⟨k, Prod.ext hr hrest⟩
  | done a' =>
    rw [hr, feed_done] at happ
    have := (List.append_eq_nil_iff.mp (Prod.mk.inj happ).2.symm).2
    exact absurd (by rw [this, List.append_nil]) hn
  | error e =>
    rw [hr, feed_error] at happ
    cases happ

theorem pure (a : α) : Reads (Pure.pure a : Reader ε α) [] a := rfl

theorem byte (b : UInt8) : Reads (Reader.byte : Reader ε UInt8) [b] b := rfl

theorem bind {f : α → Reader ε β} {bs' : List UInt8} {c : β} (h : Reads r bs a) (h' : Reads (f a) bs' c) :
    Reads (r >>= f) (bs ++ bs') c := by
  show (r.bind f).feed (bs ++ bs') = _
  rw [feed_bind, h.feed]
  exact h'

/-- After the last byte. -/
theorem last {f : α → Reader ε β} {c : β} (h : Reads r bs a) (h' : f a = done c) : Reads (r >>= f) bs c := by
  have hc : Reads (f a) [] c := by rw [h']; rfl
  have := h.bind hc
  rwa [List.append_nil] at this

theorem take (bs : List UInt8) : Reads (Reader.take bs.length : Reader ε (List UInt8)) bs bs := by
  induction bs with
  | nil => rfl
  | cons b bs ih =>
    show ((Reader.take bs.length).bind fun bs => done (b :: bs)).feed bs = _
    rw [feed_bind, show (Reader.take bs.length).feed bs = _ from ih]
    rfl

end Reads

/-! ## Several reads in turn -/

/-- The values that readers read from a stream in turn, and what is left of it. -/
def feedAll : List (Reader ε α) → List UInt8 → Option (List α × List UInt8)
  | [], bs => some ([], bs)
  | r :: rs, bs => match r.feed bs with
    | (done a, rest) => (feedAll rs rest).map fun x => (a :: x.1, x.2)
    | _ => none

/-- Readers that each read one part of the stream. -/
theorem feedAll_reads {ι : Type} {reader : ι → Reader ε α} {value : ι → α} {l : List ι}
    {parts : List (List UInt8)} (h : List.Forall₂ (fun i bs => (reader i).Reads bs (value i)) l parts)
    (rest : List UInt8) : feedAll (l.map reader) (parts.flatten ++ rest) = some (l.map value, rest) := by
  induction h with
  | nil => rfl
  | cons hr _ ih =>
    rw [List.map_cons, List.flatten_cons, List.append_assoc, feedAll, hr.feed]
    dsimp only
    rw [ih]
    rfl

end Reader

end RelayStar
