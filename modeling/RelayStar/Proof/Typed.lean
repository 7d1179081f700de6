import RelayStar.Proof.Mqtt
import RelayStar.Proof.Terminal
import RelayStar.Proof.Uplink

/-!
# From the keyboard of a terminal to the screen of another

The keys of the table are ASCII characters (`ascii_lines`), so the other terminals
show the first 47 characters of what is typed here, whatever frame of it they hear
first (`typed_text_shown`).
-/

namespace RelayStar

namespace Terminal

theorem ascii_keys {readings : List Keyboard.Registers} {c : Char} (h : .char c ∈ keys readings) : c.utf8Size = 1 := by
  induction readings with
  | nil => cases h
  | cons regs rest ih =>
    rw [keys] at h
    split at h
    · cases h
    · rcases List.mem_append.mp h with h | h
      · split at h
        · exact utf8Size_of_decodeKey (Option.mem_toList.mp h)
        · cases h
      · exact ih h

theorem ascii_pressed {events : List Event} {c : Char} (h : .char c ∈ pressed events) : c.utf8Size = 1 := by
  obtain ⟨e, -, he⟩ := List.mem_flatMap.mp h
  cases e with
  | scan readings => exact ascii_keys he
  | _ => cases he

theorem ascii_lines {pressed : List KeyAction} (h : ∀ c, .char c ∈ pressed → c.utf8Size = 1) :
    IsAscii (typing pressed) ∧ ∀ line ∈ lines pressed, IsAscii line := by
  induction pressed using List.reverseRecOn with
  | nil => exact ⟨fun _ hc => absurd hc List.not_mem_nil, fun _ hline => absurd hline List.not_mem_nil⟩
  | append_singleton pressed k ih =>
    obtain ⟨htyping, hlines⟩ := ih fun c hc => h c (List.mem_append_left _ hc)
    rw [typing_snoc, lines_snoc]
    cases k with
    | char c =>
      refine ⟨?_, fun line hline => hlines line (by simpa [Spec.editLine] using hline)⟩
      rw [Spec.editLine]
      split
      · exact fun d hd => (List.mem_append.mp hd).elim (htyping d) fun hd => List.mem_singleton.mp hd ▸ h c (by simp)
      · exact htyping
    | backspace =>
      exact ⟨fun d hd => htyping d (List.mem_of_mem_dropLast hd), fun line hline =>
        hlines line (by simpa [Spec.editLine] using hline)⟩
    | enter =>
      refine ⟨fun _ hc => absurd hc List.not_mem_nil, fun line hline => ?_⟩
      rcases List.mem_append.mp hline with hline | hline
      · exact hlines line hline
      · rw [Spec.editLine] at hline
        split at hline
        · cases hline
        · rwa [List.mem_singleton.mp hline]

end Terminal

/-- A text that is typed fits a frame on every transport, and wherever one of these
frames is the first that is heard of it, the row of the screen has the name of the
transport and the first 47 characters of the text. -/
theorem typed_text_shown {NR NA NF : Nat} (events : List Terminal.Event) :
    ∀ line ∈ Terminal.lines (Terminal.pressed events), ∀ id, ∀ p : Payload, p.toList = asBytes (String.ofList line) →
      ∀ f ∈ Card.broadcasts id p, ∃ bytes, f.message.encode MAX_FRAME = .ok bytes ∧
        ∀ r : Relay NR NA NF, r.seen.contains f.message.dedupKey = false →
          ∃ m frames, (r.bridgeStep f.transport bytes).1 = (some m, frames) ∧
            (Ui.row (.fromMessage m)).text.toList =
              '[' :: f.transport.asStr.toList ++ [']', ' '] ++ line.take 47 := by
  intro line hline id p hp f hf
  obtain ⟨t, -, rfl⟩ := List.mem_map.mp hf
  refine ⟨_, Message.encode_max_frame _, fun r hun => ?_⟩
  generalize hm : (⟨id, DEFAULT_TTL, t, CARD_ADDR, BROADCAST_ADDR, .text, p, none⟩ : Message) = m at hun ⊢
  have hfrag : m.frag = none := by rw [← hm]
  have hb : m.isBroadcast = true := by rw [← hm]; rfl
  have horigin : m.origin = t := by rw [← hm]
  obtain ⟨r', hturn⟩ := Relay.bridgeStep_whole hun hfrag hb horigin
  refine ⟨m, _, hturn, ?_⟩
  have hexcerpt : Ui.excerpt m = line.take 47 := by
    rw [Ui.excerpt, Message.asText, ← hm, hp, fromUtf8_asBytes, Option.getD_some, String.toList_ofList]
  have hascii : IsAscii (line.take 47) := fun c hc =>
    (Terminal.ascii_lines fun _ hc => Terminal.ascii_pressed hc).2 line hline c (List.mem_of_mem_take hc)
  rw [Ui.toList_row_of_fits, hexcerpt, horigin]
  rw [hexcerpt, HString.size_of_isAscii (by rwa [String.toList_ofList]), String.toList_ofList, List.length_take]
  split <;> omega

/-- The keys `h`, `i` and enter are pressed. -/
def Terminal.exampleScan : Terminal.Event := .scan [⟨1, 0x91⟩, ⟨1, 0x92⟩, ⟨1, 0x81⟩]

theorem typed_text_shown_hi :
    ∃ bytes, Card.exampleTyped.encode MAX_FRAME = .ok bytes ∧
      ∀ r : Relay 16 4 32, r.seen.contains Card.exampleTyped.dedupKey = false →
        ∃ m frames, (r.bridgeStep .mqtt bytes).1 = (some m, frames) ∧
          (Ui.row (.fromMessage m)).text.toList = '[' :: Transport.mqtt.asStr.toList ++ [']', ' '] ++ ['h', 'i'] :=
  typed_text_shown [Terminal.exampleScan] ['h', 'i'] (by decide) CARD_ID_BASE ⟨[104, 105], by decide⟩
    (by decide +kernel) ⟨.mqtt, .broadcast, Card.exampleTyped⟩ (by decide)

end RelayStar
