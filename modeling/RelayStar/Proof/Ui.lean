import Mathlib.Data.List.DropRight
import RelayStar.Spec.Editor

/-!
# The keyboard and the display

The table of the keys has ASCII characters only (`utf8Size_of_decodeKey`), so the
line that is typed has room for 64 of them (`toList_input_push`). The display draws
all of it, and all of each line of the log but for the last of 48 bytes behind the
name of ESP-NOW (`toList_row`, `render_eq`); so the row of a message is whole where
its text fits (`row_whole_iff`). The log has the last eight lines (`toList_pushLog`).
-/

namespace RelayStar

theorem utf8Size_of_decodeKey {key : UInt8} {c : Char} (h : decodeKey key = some (.char c)) : c.utf8Size = 1 := by
  have hL : IsAscii LETTERS := HString.isAscii_of_all (by decide)
  have hD : IsAscii DIGITS := HString.isAscii_of_all (by decide)
  rw [decodeKey] at h
  split at h
  · cases h
  · split at h
    · cases h
    · split at h
      · cases h
        rfl
      · split at h
        · obtain ⟨c', hc, heq⟩ := Option.map_eq_some_iff.mp h
          cases heq
          exact hL c (List.mem_of_getElem? hc)
        · split at h
          · obtain ⟨c', hc, heq⟩ := Option.map_eq_some_iff.mp h
            cases heq
            exact hD c (List.mem_of_getElem? hc)
          · cases h

namespace Ui

/-! ## The line that is typed -/

/-- The line is one of the editor. -/
structure Edits (ui : Ui) (line : List Char) : Prop where
  input : ui.input.text.toList = line
  ascii : IsAscii line
  status : ui.status.text = "ready"

theorem Edits.length_le {ui : Ui} {line : List Char} (h : ui.Edits line) : line.length ≤ 64 := by
  have := ui.input.size_le
  rwa [HString.size_of_isAscii (h.input ▸ h.ascii), h.input] at this

theorem toList_input_push {ui : Ui} {line : List Char} (h : ui.Edits line) {c : Char} (hc : c.utf8Size = 1) :
    ((ui.input.push c).getD ui.input).text.toList = if line.length < 64 then line ++ [c] else line := by
  rw [HString.toList_push (h.input ▸ h.ascii) hc, h.input]
  split
  · rename_i hlt
    exact List.take_of_length_le (by rw [List.length_append, List.length_singleton]; omega)
  · rw [List.take_append_of_le_length (Nat.le_of_not_lt ‹_›), List.take_of_length_le h.length_le]

/-! ## What is drawn -/

theorem size_origin (t : Transport) :
    (String.ofList ('[' :: t.asStr.toList ++ [']', ' '])).utf8ByteSize = if t = .espNow then 9 else 7 := by
  cases t <;> decide

theorem toList_row (line : DisplayLine) : (row line).text.toList = Spec.rowText line := by
  have hle := line.text.size_le
  have hsize := size_origin line.origin
  have hbody : (String.ofList line.text.text.toList).utf8ByteSize = line.text.text.utf8ByteSize := by
    rw [String.ofList_toList]
  rw [row, Spec.rowText]
  generalize '[' :: line.origin.asStr.toList ++ [']', ' '] = origin at hsize ⊢
  generalize line.text.text.toList = body at hbody ⊢
  split
  · rename_i h
    rw [if_pos h.1] at hsize
    rcases List.eq_nil_or_concat body with rfl | ⟨body, c, rfl⟩
    · rw [h.2] at hbody
      cases hbody
    · have hpos := c.utf8Size_pos
      rw [List.concat_eq_append] at hbody ⊢
      rw [String.ofList_append, String.utf8ByteSize_append, ← String.singleton_eq_ofList,
        String.utf8ByteSize_singleton] at hbody
      rw [List.dropLast_concat, ← List.append_assoc, HString.text_pushAll_concat]
      · simp
      all_goals
        rw [String.ofList_append, String.utf8ByteSize_append, HString.text_empty, String.utf8ByteSize_empty]
        omega
  · rename_i h
    rw [HString.text_pushAll]
    · simp
    · rw [String.ofList_append, String.utf8ByteSize_append, HString.text_empty, String.utf8ByteSize_empty]
      split at hsize
      · have : line.text.text.utf8ByteSize ≠ 48 := fun he => h ⟨‹_›, he⟩
        omega
      · omega

theorem rows_eq (y : Nat) (lines : List DisplayLine) :
    rows y lines =
      lines.mapIdx fun i line => ⟨2, y + 12 * i, colorFor line.origin, String.ofList (Spec.rowText line)⟩ := by
  induction lines generalizing y with
  | nil => rfl
  | cons line lines ih =>
    have htext : (row line).text = String.ofList (Spec.rowText line) := by rw [← toList_row, String.ofList_toList]
    have hshift (i : Nat) : y + 12 + 12 * i = y + 12 * (i + 1) := by omega
    rw [rows, ih, List.mapIdx_cons, htext]
    simp only [hshift, Nat.mul_zero, Nat.add_zero]

theorem render_eq {ui : Ui} {line : List Char} (h : ui.Edits line) : ui.render = Spec.screen ui.log.toList line := by
  have hinput : ui.inputRow.text = String.ofList ('>' :: ' ' :: line) := by
    rw [inputRow, h.input, HString.text_pushAll]
    · exact String.empty_append
    · have hsize : (String.ofList line).utf8ByteSize = line.length := by
        rw [HString.size_of_isAscii (by rw [String.toList_ofList]; exact h.ascii), String.toList_ofList]
      have := h.length_le
      rw [HString.size_cons, HString.size_cons, hsize, HString.text_empty, String.utf8ByteSize_empty]
      show 0 + (1 + (1 + line.length)) ≤ 66
      omega
  rw [render, rows_eq, h.status, hinput, Spec.screen]

/-! ## Messages -/

/-- The characters of a message that a line is made from. -/
def excerpt (m : Message) : List Char := (m.asText.getD "<binary>").toList.take 47

/-- An excerpt that fits the line and the row is shown whole. -/
theorem toList_row_of_fits {m : Message}
    (h : (String.ofList (excerpt m)).utf8ByteSize ≤ if m.origin = .espNow then 47 else 48) :
    (row (.fromMessage m)).text.toList = '[' :: m.origin.asStr.toList ++ [']', ' '] ++ excerpt m := by
  have h48 : (String.ofList (excerpt m)).utf8ByteSize ≤ 48 := by split at h <;> omega
  have htext : (DisplayLine.fromMessage m).text.text = String.ofList (excerpt m) := by
    rw [show (DisplayLine.fromMessage m).text = HString.empty.pushAll (excerpt m) from rfl, HString.text_pushAll,
      HString.text_empty, String.empty_append]
    rwa [HString.text_empty, String.utf8ByteSize_empty, Nat.zero_add]
  rw [toList_row, Spec.rowText, htext, String.toList_ofList, if_neg]
  · rfl
  · rintro ⟨horigin, hsize⟩
    rw [if_pos (show m.origin = .espNow from horigin)] at h
    omega

/-- The row of a message is the name of its transport and characters of its excerpt,
in order; all of them exactly if they fit the line and the row. -/
theorem row_whole_iff (m : Message) :
    let origin := '[' :: m.origin.asStr.toList ++ [']', ' ']
    ∃ shown, (row (.fromMessage m)).text.toList = origin ++ shown ∧ shown.Sublist (excerpt m) ∧
      (shown = excerpt m ↔ (String.ofList (excerpt m)).utf8ByteSize ≤ if m.origin = .espNow then 47 else 48) := by
  intro origin
  have hsub : (DisplayLine.fromMessage m).text.text.toList.Sublist (excerpt m) := HString.pushAll_sublist ..
  have hsize := (DisplayLine.fromMessage m).text.size_le
  have hrow : (row (.fromMessage m)).text.toList = origin ++
      if m.origin = .espNow ∧ (DisplayLine.fromMessage m).text.text.utf8ByteSize = 48 then
        (DisplayLine.fromMessage m).text.text.toList.dropLast
      else (DisplayLine.fromMessage m).text.text.toList := toList_row _
  generalize (DisplayLine.fromMessage m).text.text = text at hsub hsize hrow
  refine ⟨_, hrow, ?_, fun h => ?_, fun h => ?_⟩
  · split
    · exact (List.dropLast_sublist _).trans hsub
    · exact hsub
  · split at h
    · rename_i hcut
      -- what is cut off is missing
      have hlen := hsub.length_le
      rw [← h, List.length_dropLast] at hlen
      have hnil : text = "" := String.toList_eq_nil_iff.mp (List.length_eq_zero_iff.mp (by omega))
      rw [hnil] at hcut
      cases hcut.2
    · rename_i hcut
      rw [← h, String.ofList_toList]
      split
      · have : text.utf8ByteSize ≠ 48 := fun he => hcut ⟨‹_›, he⟩
        omega
      · exact hsize
  · rw [← List.append_cancel_left_eq, ← hrow]
    exact toList_row_of_fits h

/-! ## The log -/

/-- The log has the last eight lines. -/
theorem toList_pushLog {ui : Ui} {lines : List DisplayLine} (h : ui.log.toList = lines.rtake LOG_CAPACITY)
    (line : DisplayLine) : (ui.pushLog line).log.toList = (lines ++ [line]).rtake LOG_CAPACITY := by
  have hpush (log : HVec DisplayLine LOG_CAPACITY) (hlog : log.toList = lines.rtake 7) :
      ((log.push line).getD log).toList = (lines ++ [line]).rtake LOG_CAPACITY := by
    have hroom : log.toList.length < LOG_CAPACITY := by
      rw [hlog, List.rtake, List.length_drop]
      show _ < 8
      omega
    cases hp : log.push line with
    | none =>
      rw [HVec.push_eq, HVec.extendFromSlice_eq_none, List.length_append, List.length_singleton] at hp
      omega
    | some log' => rw [Option.getD_some, HVec.push_eq_some.mp hp, hlog, LOG_CAPACITY, List.rtake_concat_succ]
  have htail : ((ui.log.popFront.map (·.2)).getD ui.log).toList = ui.log.toList.tail := by
    cases hp : ui.log.popFront with
    | none =>
      rw [Option.map_none, Option.getD_none, HVec.popFront_eq_none.mp hp]
      rfl
    | some x =>
      rw [Option.map_some, Option.getD_some, HVec.popFront_eq_some.mp hp]
      rfl
  have hcap : LOG_CAPACITY = 8 := rfl
  have hlen : ui.log.len = min lines.length 8 := by
    rw [HVec.len, h, List.rtake, List.length_drop, LOG_CAPACITY]
    omega
  refine hpush _ ?_
  rw [List.rtake] at h ⊢
  split
  · rename_i hfull
    rw [htail, h, List.tail_drop]
    congr 1
    omega
  · rename_i hroom
    rw [h]
    congr 1
    omega

end Ui

end RelayStar
