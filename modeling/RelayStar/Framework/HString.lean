import Mathlib.Algebra.Ring.Nat
import Mathlib.Data.List.Induction

/-!
# Strings of bounded size

`HString cap` is a string of at most `cap` bytes. What does not fit is not
appended (`pushStr`, `push`), and a text that is written piece by piece ends
before the first piece that does not fit (`write`). Characters that are appended one
at a time (`pushAll`) are in order (`pushAll_sublist`), and all there if all of them
fit (`text_pushAll`); a character of one byte is there if a byte is left
(`toList_push`).
-/

namespace RelayStar

structure HString (cap : Nat) where
  text : String
  size_le : text.utf8ByteSize ≤ cap
deriving DecidableEq

/-- Every character takes one byte. -/
def IsAscii (l : List Char) : Prop := ∀ c ∈ l, c.utf8Size = 1

namespace HString

variable {cap : Nat}

def empty : HString cap := ⟨"", Nat.zero_le _⟩

/-- Append a string, if there is room for all of it. -/
def pushStr (s : HString cap) (t : String) : Option (HString cap) :=
  if h : (s.text ++ t).utf8ByteSize ≤ cap then some ⟨s.text ++ t, h⟩ else none

/-- Append a character, if there is room for it. -/
def push (s : HString cap) (c : Char) : Option (HString cap) :=
  if h : (s.text.push c).utf8ByteSize ≤ cap then some ⟨s.text.push c, h⟩ else none

theorem size_dropLast (s : String) : (String.ofList s.toList.dropLast).utf8ByteSize ≤ s.utf8ByteSize := by
  have h : s = String.ofList s.toList.dropLast ++ String.ofList (s.toList.drop (s.toList.length - 1)) := by
    rw [← String.ofList_append, List.dropLast_eq_take, List.take_append_drop, String.ofList_toList]
  calc (String.ofList s.toList.dropLast).utf8ByteSize
      ≤ (String.ofList s.toList.dropLast ++ String.ofList (s.toList.drop (s.toList.length - 1))).utf8ByteSize := by
        rw [String.utf8ByteSize_append]
        exact Nat.le_add_right ..
    _ = s.utf8ByteSize := by rw [← h]

/-- Remove the last character, if there is one. -/
def pop (s : HString cap) : HString cap :=
  ⟨String.ofList s.text.toList.dropLast, Nat.le_trans (size_dropLast s.text) s.size_le⟩

def isEmpty (s : HString cap) : Bool := s.text = ""

/-- Write the pieces of a formatted text, up to the first that does not fit. -/
def write (s : HString cap) : List String → HString cap
  | [] => s
  | t :: ts => match s.pushStr t with
    | none => s
    | some s => s.write ts

/-- Append characters one by one, without those there is no room for. -/
def pushAll (s : HString cap) (l : List Char) : HString cap := l.foldl (fun s c => (s.push c).getD s) s

@[simp] theorem text_empty : (empty : HString cap).text = "" := rfl

theorem ext {s t : HString cap} (h : s.text.toList = t.text.toList) : s = t := by
  cases s
  cases t
  simpa using String.toList_injective h

@[simp] theorem toList_pop (s : HString cap) : s.pop.text.toList = s.text.toList.dropLast := by simp [pop]

theorem isEmpty_iff {s : HString cap} : s.isEmpty = true ↔ s.text.toList = [] := by simp [isEmpty]

theorem text_pushStr {s : HString cap} {t : String} (h : (s.text ++ t).utf8ByteSize ≤ cap) :
    s.pushStr t = some ⟨s.text ++ t, h⟩ := dif_pos h

/-- Pieces that fit are all written. -/
theorem text_write (s : HString cap) {ts : List String} (h : (s.text ++ String.join ts).utf8ByteSize ≤ cap) :
    (s.write ts).text = s.text ++ String.join ts := by
  induction ts generalizing s with
  | nil => simp [write, String.join]
  | cons t ts ih =>
    have hjoin : s.text ++ String.join (t :: ts) = s.text ++ t ++ String.join ts := by
      simp [String.append_assoc]
    rw [hjoin] at h ⊢
    have hfit : (s.text ++ t).utf8ByteSize ≤ cap := by
      rw [String.utf8ByteSize_append] at h
      omega
    rw [write, text_pushStr hfit]
    exact ih ⟨s.text ++ t, hfit⟩ h

/-! ## Characters one by one -/

theorem pushAll_append (s : HString cap) (l l' : List Char) : s.pushAll (l ++ l') = (s.pushAll l).pushAll l' :=
  List.foldl_append

theorem size_cons (c : Char) (l : List Char) :
    (String.ofList (c :: l)).utf8ByteSize = c.utf8Size + (String.ofList l).utf8ByteSize := by
  rw [← List.singleton_append, String.ofList_append, String.utf8ByteSize_append, ← String.singleton_eq_ofList,
    String.utf8ByteSize_singleton]

theorem text_push {s : HString cap} {c : Char} (h : s.text.utf8ByteSize + c.utf8Size ≤ cap) :
    ((s.push c).getD s).text = s.text.push c := by
  rw [push, dif_pos (by rwa [String.utf8ByteSize_push])]
  rfl

theorem push_eq_none {s : HString cap} {c : Char} (h : cap < s.text.utf8ByteSize + c.utf8Size) : s.push c = none :=
  dif_neg (by rw [String.utf8ByteSize_push]; omega)

/-- Characters that all fit are appended. -/
theorem text_pushAll {s : HString cap} {l : List Char}
    (h : s.text.utf8ByteSize + (String.ofList l).utf8ByteSize ≤ cap) : (s.pushAll l).text = s.text ++ String.ofList l := by
  induction l generalizing s with
  | nil => exact String.append_empty.symm
  | cons c l ih =>
    rw [size_cons] at h
    have htext := @text_push _ s c (by omega)
    have hcons : String.ofList (c :: l) = String.singleton c ++ String.ofList l := by
      rw [String.singleton_eq_ofList, ← String.ofList_append, List.singleton_append]
    rw [pushAll, List.foldl_cons, ← pushAll, ih, htext, hcons, String.push_eq_append, String.append_assoc]
    rw [htext, String.utf8ByteSize_push]
    omega

/-- A last character that does not fit is left out. -/
theorem text_pushAll_concat {s : HString cap} {l : List Char} {c : Char}
    (h : s.text.utf8ByteSize + (String.ofList l).utf8ByteSize ≤ cap)
    (hc : cap < s.text.utf8ByteSize + (String.ofList l).utf8ByteSize + c.utf8Size) :
    (s.pushAll (l ++ [c])).text = s.text ++ String.ofList l := by
  have htext := text_pushAll h
  rw [← String.utf8ByteSize_append, ← htext] at hc
  rw [pushAll_append, pushAll, List.foldl_cons, List.foldl_nil, push_eq_none hc, Option.getD_none, htext]

/-- What is left out leaves the rest in order. -/
theorem pushAll_sublist (s : HString cap) (l : List Char) : (s.pushAll l).text.toList.Sublist (s.text.toList ++ l) := by
  induction l generalizing s with
  | nil => exact List.append_nil _ ▸ List.Sublist.refl _
  | cons c l ih =>
    refine (ih _).trans ?_
    rw [List.append_cons s.text.toList c l]
    refine List.Sublist.append_right ?_ l
    show ((s.push c).getD s).text.toList.Sublist _
    by_cases h : s.text.utf8ByteSize + c.utf8Size ≤ cap
    · simp [text_push h]
    · rw [push_eq_none (Nat.lt_of_not_le h)]
      exact List.sublist_append_left ..

/-! ## One byte a character -/

theorem size_of_isAscii {s : String} (h : IsAscii s.toList) : s.utf8ByteSize = s.toList.length := by
  suffices H : ∀ l : List Char, IsAscii l → (String.ofList l).utf8ByteSize = l.length by
    have := H s.toList h
    rwa [String.ofList_toList] at this
  intro l
  induction l using List.reverseRecOn with
  | nil => intro _; rfl
  | append_singleton l c ih =>
    intro hl
    have hc : (String.ofList [c]).utf8ByteSize = 1 := by
      rw [← String.singleton_eq_ofList, String.utf8ByteSize_singleton]
      exact hl c (by simp)
    rw [String.ofList_append, String.utf8ByteSize_append, ih fun d hd => hl d (by simp [hd]), hc]
    simp

theorem isAscii_of_all {l : List Char} (h : l.all (·.utf8Size = 1) = true) : IsAscii l := fun c hc =>
  of_decide_eq_true (List.all_eq_true.mp h c hc)

theorem isAscii_repr (n : Nat) : IsAscii n.repr.toList := fun c hc => by
  rw [Nat.toList_repr] at hc
  have hd := Nat.isDigit_of_mem_toDigits (by decide) (by decide) hc
  simp only [Char.isDigit, Bool.and_eq_true, decide_eq_true_eq] at hd
  rw [Char.utf8Size, if_pos]
  exact UInt32.le_trans hd.2 (by decide)

theorem size_repr_le {n k : Nat} (hk : 0 < k) (h : n < 10 ^ k) : n.repr.utf8ByteSize ≤ k := by
  rw [size_of_isAscii (isAscii_repr n), String.length_toList]
  exact (Nat.length_repr_le_iff hk).mpr h

theorem toList_push {s : HString cap} (hs : IsAscii s.text.toList) {c : Char} (hc : c.utf8Size = 1) :
    ((s.push c).getD s).text.toList = (s.text.toList ++ [c]).take cap := by
  have hsize := size_of_isAscii hs
  have hle := s.size_le
  rw [push]
  split
  · rename_i h
    rw [String.utf8ByteSize_push, hsize, hc] at h
    rw [List.take_of_length_le (by simpa using h)]
    simp
  · rename_i h
    rw [String.utf8ByteSize_push, hsize, hc] at h
    have hlen : s.text.toList.length = cap := by omega
    rw [List.take_append_of_le_length (Nat.le_of_eq hlen.symm), List.take_of_length_le (Nat.le_of_eq hlen)]
    rfl

theorem isAscii_push {s : HString cap} (hs : IsAscii s.text.toList) {c : Char} (hc : c.utf8Size = 1) :
    IsAscii ((s.push c).getD s).text.toList := fun d hd => by
  rw [toList_push hs hc] at hd
  rcases List.mem_append.mp (List.mem_of_mem_take hd) with hd | hd
  · exact hs d hd
  · rw [List.mem_singleton.mp hd]
    exact hc

end HString

end RelayStar
