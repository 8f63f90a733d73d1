/-
Text as bytes, and bytes as text.

Texts are written in UTF-8. Bytes that are not UTF-8 are not text, but a reader that has
to show them anyway can do so: every stretch of bytes that begins a character and does
not complete it, and every byte that begins none, becomes one replacement character.
-/
import BarArchive.Wire.Bytes

namespace BarArchive.Utf8

/-- The bytes of a text. -/
def bytes (s : String) : Bytes := s.toUTF8.data.toList

/-- The text that bytes write, if they write one. -/
def text? (bs : Bytes) : Option String := String.fromUTF8? ⟨bs.toArray⟩

theorem text?_bytes (s : String) : text? (bytes s) = some s := by
  have h : (⟨s.toUTF8.data.toList.toArray⟩ : ByteArray) = s.toUTF8 := by cases s.toUTF8; simp
  have hv : s.toUTF8.IsValidUTF8 := s.isValidUTF8
  simp only [text?, bytes, h, String.fromUTF8?, hv, dite_true]
  rfl

/-! ### Reading what need not be text -/

/--
A character that has begun: how many bytes are to come, the least and the greatest that
the next one may be, and the number so far.
-/
structure Begun where
  owed : Nat
  low : Nat
  high : Nat
  number : Nat

/-- The character that a byte above 127 begins. -/
def begun? (b : Nat) : Option Begun :=
  if b < 0xC2 then none
  else if b < 0xE0 then some ⟨1, 0x80, 0xBF, b - 0xC0⟩
  else if b = 0xE0 then some ⟨2, 0xA0, 0xBF, 0⟩
  else if b = 0xED then some ⟨2, 0x80, 0x9F, b - 0xE0⟩
  else if b < 0xF0 then some ⟨2, 0x80, 0xBF, b - 0xE0⟩
  else if b = 0xF0 then some ⟨3, 0x90, 0xBF, 0⟩
  else if b < 0xF4 then some ⟨3, 0x80, 0xBF, b - 0xF0⟩
  else if b = 0xF4 then some ⟨3, 0x80, 0x8F, b - 0xF0⟩
  else none

/-- What stands for bytes that are no character. -/
def replacement : Char := '\uFFFD'

/-- A byte where a character may begin: the characters that it settles, and what has begun. -/
def first (b : Nat) : List Char × Option Begun :=
  if b < 0x80 then ([Char.ofNat b], none)
  else match begun? b with
    | some c => ([], some c)
    | none => ([replacement], none)

/-- A byte after a character has begun, or where one may begin. -/
def step (state : Option Begun) (b : Nat) : List Char × Option Begun :=
  match state with
  | none => first b
  | some c =>
    if c.low ≤ b ∧ b ≤ c.high then
      let number := c.number * 64 + (b - 0x80)
      if c.owed ≤ 1 then ([Char.ofNat number], none)
      else ([], some ⟨c.owed - 1, 0x80, 0xBF, number⟩)
    else
      let (chars, state) := first b
      (replacement :: chars, state)

/-- The characters of bytes, with replacements. -/
def patched : Option Begun → Bytes → List Char
  | none, [] => []
  | some _, [] => [replacement]
  | state, b :: rest =>
    let (chars, state) := step state b.toNat
    chars ++ patched state rest

/-- The text that bytes write, with replacements where they write none. -/
def lossy (bs : Bytes) : String := (text? bs).getD (String.ofList (patched none bs))

theorem lossy_bytes (s : String) : lossy (bytes s) = s := by simp [lossy, text?_bytes]

end BarArchive.Utf8
