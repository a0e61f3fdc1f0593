import TapeMachine.Files.Loader
import TapeMachine.Proofs.Checks

/-!
# The limit on the bytes of a file

A file of rules is measured in bytes before it is read, and its text in characters when it is
parsed. Since a character takes at most four bytes, the first test refuses nothing that the second
one admits (`Program.too_long_of_too_many_bytes`).
-/

namespace TapeMachine.Program

variable {look : Lookup} {s : Settings} {path text : String}

theorem utf8ByteSize_le (text : String) : text.utf8ByteSize ≤ 4 * text.length := by
  induction text using String.push_induction with
  | empty => simp
  | push text c ih =>
    have hc := c.utf8Size_le_four
    rw [String.utf8ByteSize_push, String.length_push]
    omega

theorem decodeText_toUTF8 (text : String) : decodeText text.toUTF8 = .ok text := by
  have hvalid : text.toUTF8.IsValidUTF8 := text.isValidUTF8
  rw [decodeText, String.fromUTF8?, dif_pos hvalid]
  rfl

/-- What comes of a file that is a text. -/
theorem load_of_file (hfile : look path = .ok (.file text.toUTF8)) :
    load look s path = if s.maxRulesBytes < text.utf8ByteSize then
      .error (.file (.tooManyBytes path text.utf8ByteSize s.maxRulesSize)) else ofText s text := by
  have hget : look.get path = .ok (.file text.toUTF8) := Checks.mapError_eq_ok_iff.2 hfile
  have hsize : Found.size (.file text.toUTF8) = text.utf8ByteSize := rfl
  have htext : Found.text (.file text.toUTF8) = .ok text := decodeText_toUTF8 text
  rw [load, hget]
  show (if s.maxRulesBytes < Found.size (.file text.toUTF8) then _ else _) = _
  rw [hsize, htext]
  rfl

/-- The byte limit stops at the greatest 64-bit count, and so does the size of a file. -/
theorem too_long_of_too_many_bytes (hsize : text.utf8ByteSize < UInt64.size)
    (hbytes : s.maxRulesBytes < text.utf8ByteSize) : s.maxRulesSize.toNat < text.length := by
  have hfour := utf8ByteSize_le text
  simp only [Settings.maxRulesBytes] at hbytes
  omega

/-- Settings are checked before the text is looked at. -/
theorem ofText_of_too_long (hlong : s.maxRulesSize.toNat < text.length) :
    (∃ fault, ofText s text = .error (.settings fault)) ∨
      ofText s text = .error (.rule (.tooLarge text.length s.maxRulesSize)) := by
  have hparse : Rule.parse s text = .error (.tooLarge text.length s.maxRulesSize) := if_pos hlong
  cases hcheck : s.check with
  | error fault =>
    left
    exact ⟨fault, by rw [ofText, hcheck]; rfl⟩
  | ok u =>
    right
    rw [ofText, hcheck, hparse]
    rfl

/-- A file is loaded as its text is. Up to four bytes for each admissible character the results are
the same, errors included. A file with more bytes is refused as it is, and its text is refused too,
for its length if not for the settings: so the bytes never decide what is accepted. The size of a
file, like the limit on it, is a 64-bit count. -/
theorem file_loads_as_text (look : Lookup) (s : Settings) (path text : String)
    (hfile : look path = .ok (.file text.toUTF8)) (hsize : text.utf8ByteSize < UInt64.size) :
    (∀ p, load look s path = .ok p ↔ ofText s text = .ok p) ∧
    (text.utf8ByteSize ≤ min (4 * s.maxRulesSize.toNat) (UInt64.size - 1) →
      load look s path = ofText s text) ∧
    (min (4 * s.maxRulesSize.toNat) (UInt64.size - 1) < text.utf8ByteSize →
      load look s path = .error (.file (.tooManyBytes path text.utf8ByteSize s.maxRulesSize)) ∧
      ((∃ fault, ofText s text = .error (.settings fault)) ∨
        ofText s text = .error (.rule (.tooLarge text.length s.maxRulesSize)))) := by
  have hload : load look s path = _ := load_of_file hfile
  have hmax : s.maxRulesBytes = min (4 * s.maxRulesSize.toNat) (UInt64.size - 1) := by
    rw [Settings.maxRulesBytes, Nat.mul_comm]
  rw [← hmax]
  refine ⟨?_, ?_, ?_⟩
  · intro p
    rw [hload]
    split
    · rename_i hbytes
      obtain ⟨fault, htext⟩ | htext := ofText_of_too_long (too_long_of_too_many_bytes hsize hbytes)
      all_goals simp [htext]
    · exact Iff.rfl
  · intro hbytes
    rw [hload, if_neg (by omega)]
  · intro hbytes
    rw [hload, if_pos hbytes]
    exact ⟨rfl, ofText_of_too_long (too_long_of_too_many_bytes hsize hbytes)⟩

/-- Two characters of four bytes each, where one character is admissible. -/
theorem file_loads_as_text_refused :
    (8 : Nat) < UInt64.size ∧ min (4 * 1) (UInt64.size - 1) < 8 ∧
      load (fun _ => .ok (.file "😀😀".toUTF8)) { maxRulesSize := 1 } "x.tm" =
        .error (.file (.tooManyBytes "x.tm" 8 1)) ∧
      ∀ p, ofText { maxRulesSize := 1 } "😀😀" ≠ .ok p := by
  have hsize : "😀😀".utf8ByteSize = 8 := by decide
  obtain ⟨hsame, _, hmany⟩ := file_loads_as_text (fun _ => .ok (.file "😀😀".toUTF8))
    { maxRulesSize := 1 } "x.tm" "😀😀" rfl (by rw [hsize]; decide)
  have hrefused := (hmany (by rw [hsize]; decide)).1
  rw [hsize] at hrefused
  refine ⟨by decide, by decide, hrefused, ?_⟩
  intro p hp
  rw [← hsame p, hrefused] at hp
  cases hp

end TapeMachine.Program
