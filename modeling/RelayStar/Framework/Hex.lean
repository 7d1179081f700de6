/-!
# Hexadecimal text

Two lowercase digits a byte (`encode`), which read back as the bytes
(`decode_encode`), so that different bytes have different digits
(`encode_injective`). Digits are ASCII (`IsDigit.lt`), and bytes that are
ASCII are UTF-8 (`isValidUTF8_of_lt`).
-/

namespace RelayStar.Hex

/-- The digit of a number below 16. -/
def digit (n : Nat) : UInt8 := if n < 10 then UInt8.ofNat (48 + n) else UInt8.ofNat (87 + n)

/-- One of the characters `0` to `9` and `a` to `f`. -/
def IsDigit (c : UInt8) : Prop := 48 ≤ c.toNat ∧ c.toNat ≤ 57 ∨ 97 ≤ c.toNat ∧ c.toNat ≤ 102

instance (c : UInt8) : Decidable (IsDigit c) :=
  inferInstanceAs (Decidable (48 ≤ c.toNat ∧ c.toNat ≤ 57 ∨ 97 ≤ c.toNat ∧ c.toNat ≤ 102))

/-- The number of a digit. -/
def undigit (c : UInt8) : Option Nat :=
  if 48 ≤ c.toNat ∧ c.toNat ≤ 57 then some (c.toNat - 48)
  else if 97 ≤ c.toNat ∧ c.toNat ≤ 102 then some (c.toNat - 87)
  else none

def encode (bytes : List UInt8) : List UInt8 :=
  bytes.flatMap fun b => [digit (b.toNat / 16), digit (b.toNat % 16)]

def decode : List UInt8 → Option (List UInt8)
  | [] => some []
  | hi :: lo :: cs => match undigit hi, undigit lo with
    | some h, some l => (decode cs).map (UInt8.ofNat (h * 16 + l) :: ·)
    | _, _ => none
  | [_] => none

theorem isDigit_digit : ∀ n < 16, IsDigit (digit n) := by decide

theorem undigit_digit : ∀ n < 16, undigit (digit n) = some n := by decide

theorem encode_cons (b : UInt8) (bytes : List UInt8) :
    encode (b :: bytes) = digit (b.toNat / 16) :: digit (b.toNat % 16) :: encode bytes := rfl

theorem length_encode (bytes : List UInt8) : (encode bytes).length = 2 * bytes.length := by
  induction bytes with
  | nil => rfl
  | cons b bytes ih =>
    rw [encode_cons, List.length_cons, List.length_cons, ih, List.length_cons]
    omega

theorem decode_encode (bytes : List UInt8) : decode (encode bytes) = some bytes := by
  induction bytes with
  | nil => rfl
  | cons b bytes ih =>
    have hb := b.toNat_lt
    have hbyte : UInt8.ofNat (b.toNat / 16 * 16 + b.toNat % 16) = b := by
      rw [Nat.div_add_mod', UInt8.ofNat_toNat]
    simp only [encode_cons, decode, undigit_digit _ (show b.toNat / 16 < 16 by omega),
      undigit_digit _ (Nat.mod_lt _ (by decide)), ih, Option.map_some, hbyte]

theorem encode_injective {bytes bytes' : List UInt8} (h : encode bytes = encode bytes') : bytes = bytes' := by
  have hd := decode_encode bytes
  rw [h, decode_encode] at hd
  exact (Option.some.inj hd).symm

theorem isDigit_of_mem_encode {bytes : List UInt8} : ∀ c ∈ encode bytes, IsDigit c := by
  induction bytes with
  | nil => exact fun c hc => absurd hc List.not_mem_nil
  | cons b bytes ih =>
    have hb := b.toNat_lt
    rw [encode_cons, List.forall_mem_cons, List.forall_mem_cons]
    exact ⟨isDigit_digit _ (by omega), isDigit_digit _ (Nat.mod_lt _ (by decide)), ih⟩

theorem IsDigit.lt {c : UInt8} (h : IsDigit c) : c.toNat < 128 := by
  rw [IsDigit] at h
  omega

/-- Text in ASCII is text in UTF-8. -/
theorem isValidUTF8_of_lt {bytes : List UInt8} (h : ∀ b ∈ bytes, b.toNat < 128) :
    ByteArray.IsValidUTF8 ⟨bytes.toArray⟩ := by
  induction bytes with
  | nil => exact ByteArray.isValidUTF8_empty
  | cons b bytes ih =>
    obtain ⟨hb, h⟩ := List.forall_mem_cons.mp h
    have hsize : (Char.ofUInt8 b).utf8Size = 1 := by
      rw [Char.utf8Size_eq_one_iff, UInt32.le_iff_toNat_le]
      exact Nat.le_of_lt_succ hb
    have hbyte : String.utf8EncodeChar (Char.ofUInt8 b) = [b] := by
      rw [String.utf8EncodeChar_eq_singleton hsize]
      exact congrArg (fun c => [c]) (UInt8.toUInt8_toUInt32 b)
    have happ := (Char.isValidUTF8_toByteArray_utf8EncodeChar (c := Char.ofUInt8 b)).append (ih h)
    have hcons : [b].toByteArray ++ ⟨bytes.toArray⟩ = (⟨(b :: bytes).toArray⟩ : ByteArray) := by
      apply ByteArray.ext
      rw [ByteArray.data_append, List.data_toByteArray, List.append_toArray]
      rfl
    rwa [hbyte, hcons] at happ

end RelayStar.Hex
