/-!
# UTF-8

Bytes are read one by one. A byte either is a character, or opens a character whose other bytes must lie
in known ranges, or is malformed. When a byte does not continue an open character, what was read of that
character is one malformed part and the byte is read anew.

## Main definitions

* `decodeParts` — the characters of a row of bytes, with a mark for each malformed part.
* `encode` — the bytes of a text.
-/

namespace CodeAudit.Text

/-- A character whose first bytes are read: the number so far, the range of the next byte, and how many
bytes follow that one. -/
structure OpenChar where
  value : Nat
  low : Nat
  high : Nat
  left : Nat

/-- What a byte says at the start of a character. -/
inductive Lead
  | char (c : Char)
  | opens (pending : OpenChar)
  | malformed

/-- Reads the first byte of a character. The ranges leave out overlong forms, surrogates and numbers above
the greatest code point. -/
def lead (b : UInt8) : Lead :=
  let n := b.toNat
  if n < 0x80 then .char (Char.ofNat n)
  else if n < 0xC2 then .malformed
  else if n < 0xE0 then .opens ⟨n - 0xC0, 0x80, 0xBF, 0⟩
  else if n == 0xE0 then .opens ⟨0, 0xA0, 0xBF, 1⟩
  else if n == 0xED then .opens ⟨0xD, 0x80, 0x9F, 1⟩
  else if n < 0xF0 then .opens ⟨n - 0xE0, 0x80, 0xBF, 1⟩
  else if n == 0xF0 then .opens ⟨0, 0x90, 0xBF, 2⟩
  else if n < 0xF4 then .opens ⟨n - 0xF0, 0x80, 0xBF, 2⟩
  else if n == 0xF4 then .opens ⟨4, 0x80, 0x8F, 2⟩
  else .malformed

/-- The characters of a row of bytes behind the start of an open character, if there is one. Each
malformed part gives a `none`. -/
def decodeParts : Option OpenChar → List UInt8 → List (Option Char)
  | none, [] => []
  | some _, [] => [none]
  | pending, b :: rest =>
    let anew (rest : List (Option Char)) : List (Option Char) :=
      if pending.isSome then none :: rest else rest
    let fresh (_ : Unit) : List (Option Char) :=
      match lead b with
      | .char c => anew (some c :: decodeParts none rest)
      | .opens p => anew (decodeParts (some p) rest)
      | .malformed => anew (none :: decodeParts none rest)
    match pending with
    | some p =>
      if p.low ≤ b.toNat && b.toNat ≤ p.high then
        let value := p.value * 64 + (b.toNat - 0x80)
        match p.left with
        | 0 => some (Char.ofNat value) :: decodeParts none rest
        | left + 1 => decodeParts (some ⟨value, 0x80, 0xBF, left⟩) rest
      else fresh ()
    | none => fresh ()

/-- The text of well-formed bytes. -/
def decode? (bytes : List UInt8) : Option String :=
  ((decodeParts none bytes).mapM id).map String.ofList

/-- The text of any bytes; malformed parts are left out. -/
def decodeLossy (bytes : List UInt8) : String :=
  String.ofList ((decodeParts none bytes).filterMap id)

/-- The bytes of a text. -/
def encode (s : String) : List UInt8 :=
  s.toUTF8.toList

end CodeAudit.Text
