import LightNfs.Basic

/-!
# UTF-8 names

`valid_utf8` of `core/names.cpp`.
-/

namespace LightNfs

/-- The length of the sequence a byte leads in, or 0. -/
def utf8Length (c : UInt8) : Nat :=
  if c < 0x80 then 1
  else if c >>> 5 = 0x6 then 2
  else if c >>> 4 = 0xE then 3
  else if c >>> 3 = 0x1E then 4
  else 0

/-- The checks on one sequence: continuation bytes, overlong forms, surrogates, U+FFFE, U+FFFF and the upper bound. -/
def utf8Sequence (c : UInt8) (rest : Bytes) (len : Nat) : Bool :=
  rest.all (fun b => b &&& 0xC0 == 0x80) &&
    !(len == 2 && c < 0xC2) &&
    !(len == 3 && c == 0xE0 && rest.headD 0 < 0xA0) &&
    !(len == 3 && c == 0xED && rest.headD 0 > 0x9F) &&
    !(len == 3 && c == 0xEF && rest.headD 0 == 0xBF && (rest.getD 1 0 == 0xBE || rest.getD 1 0 == 0xBF)) &&
    !(len == 4 && c == 0xF0 && rest.headD 0 < 0x90) &&
    !(len == 4 && (c > 0xF4 || c == 0xF4 && rest.headD 0 > 0x8F))

/-- The loop of `valid_utf8`; `fuel` bounds its rounds. -/
def validUtf8From : Nat → Bytes → Bool
  | _, [] => true
  | 0, _ :: _ => false
  | fuel + 1, c :: rest =>
    let len := utf8Length c
    if len = 0 ∨ len > rest.length + 1 then false
    else utf8Sequence c (rest.take (len - 1)) len && validUtf8From fuel (rest.drop (len - 1))

def validUtf8 (bytes : Bytes) : Bool := validUtf8From bytes.length bytes

end LightNfs
