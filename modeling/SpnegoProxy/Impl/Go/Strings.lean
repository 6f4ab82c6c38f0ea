import SpnegoProxy.Impl.Go.Unicode
import Mathlib.Data.List.Infix

/-!
# Go strings and the `strings` package

A Go string is a sequence of bytes, not of characters: `Str` is a list of
bytes, and a function that works on characters decodes them first. `runes`
is the decoding of `for range` and `utf8.DecodeRuneInString`: each valid
UTF-8 sequence gives its code point, and each byte that starts none gives
`runeError` and is one byte wide.
-/

namespace SP.Go

/-- A Go string. -/
abbrev Str := List UInt8

/-- The bytes of a literal. -/
def str (s : String) : Str := s.toUTF8.data.toList

/-- `utf8.RuneError`, the replacement character. -/
def runeError : Nat := 0xFFFD

/-- A byte of the form `10xxxxxx`. -/
def isCont (b : UInt8) : Bool := 0x80 ≤ b && b ≤ 0xBF

/-- A valid sequence of two bytes. -/
def valid2 (a b : UInt8) : Bool := 0xC2 ≤ a && a ≤ 0xDF && isCont b

/-- A valid sequence of three bytes: no overlong forms, no surrogates. -/
def valid3 (a b c : UInt8) : Bool :=
  0xE0 ≤ a && a ≤ 0xEF && isCont b && isCont c && (a != 0xE0 || 0xA0 ≤ b) && (a != 0xED || b ≤ 0x9F)

/-- A valid sequence of four bytes: no overlong forms, nothing above `0x10FFFF`. -/
def valid4 (a b c d : UInt8) : Bool :=
  0xF0 ≤ a && a ≤ 0xF4 && isCont b && isCont c && isCont d && (a != 0xF0 || 0x90 ≤ b) &&
    (a != 0xF4 || b ≤ 0x8F)

/-- The low six bits of a continuation byte. -/
def low6 (b : UInt8) : Nat := b.toNat % 64

/-- A character of two bytes at the start of `a :: s`, with its bytes. -/
def decode2 (a : UInt8) : Str → Option (Nat × Str)
  | b :: _ => if valid2 a b then some (a.toNat % 32 * 64 + low6 b, [a, b]) else none
  | [] => none

/-- A character of three bytes at the start of `a :: s`. -/
def decode3 (a : UInt8) : Str → Option (Nat × Str)
  | b :: c :: _ =>
    if valid3 a b c then some ((a.toNat % 16 * 64 + low6 b) * 64 + low6 c, [a, b, c]) else none
  | _ => none

/-- A character of four bytes at the start of `a :: s`. -/
def decode4 (a : UInt8) : Str → Option (Nat × Str)
  | b :: c :: d :: _ =>
    if valid4 a b c d then
      some (((a.toNat % 8 * 64 + low6 b) * 64 + low6 c) * 64 + low6 d, [a, b, c, d])
    else none
  | _ => none

/-- `utf8.DecodeRuneInString` on `a :: s`: the first character, with its bytes. -/
def decodeRune (a : UInt8) (s : Str) : Nat × Str :=
  if a < 0x80 then (a.toNat, [a])
  else (decode2 a s <|> decode3 a s <|> decode4 a s).getD (runeError, [a])

/-- The characters after the next `skip` bytes, each with its bytes. -/
def runesFrom : Nat → Str → List (Nat × Str)
  | _, [] => []
  | 0, a :: s => decodeRune a s :: runesFrom ((decodeRune a s).2.length - 1) s
  | skip + 1, _ :: s => runesFrom skip s

/-- The characters of a string, each with its bytes. -/
def runes (s : Str) : List (Nat × Str) := runesFrom 0 s

/-- `utf8.EncodeRune`. -/
def encodeRune (r : Nat) : Str :=
  if r < 0x80 then [r.toUInt8]
  else if r < 0x800 then [(0xC0 + r / 64).toUInt8, (0x80 + r % 64).toUInt8]
  else if (0xD800 ≤ r ∧ r ≤ 0xDFFF) ∨ 0x10FFFF < r then [0xEF, 0xBF, 0xBD]
  else if r < 0x10000 then
    [(0xE0 + r / 4096).toUInt8, (0x80 + r / 64 % 64).toUInt8, (0x80 + r % 64).toUInt8]
  else
    [(0xF0 + r / 262144).toUInt8, (0x80 + r / 4096 % 64).toUInt8, (0x80 + r / 64 % 64).toUInt8,
      (0x80 + r % 64).toUInt8]

/-- `strings.ToLower`: character by character, a byte that starts no valid
character becoming the replacement character (as `strings.Map` does). The
fast path for ASCII strings gives the same bytes. -/
def toLower (s : Str) : Str := (runes s).flatMap fun r => encodeRune (toLowerRune r.1)

/-- `strings.TrimSpace`. -/
def trimSpace (s : Str) : Str :=
  ((((runes s).dropWhile fun r => isSpace r.1).reverse.dropWhile fun r => isSpace r.1).reverse).flatMap
    Prod.snd

/-- The string begins with white space. -/
def beginsWithSpace (s : Str) : Bool := (runes s).head?.any fun r => isSpace r.1

/-- The string ends with white space. -/
def endsWithSpace (s : Str) : Bool := (runes s).getLast?.any fun r => isSpace r.1

/-- `strings.SplitSeq(s, ",")`. -/
def splitComma (s : Str) : List Str := s.splitOn 0x2C

/-- `strings.HasPrefix`. -/
def hasPre (s p : Str) : Bool := p.isPrefixOf s

/-- `strings.HasSuffix`. -/
def hasSuf (s p : Str) : Bool := p.isSuffixOf s

/-- `strings.Contains`. -/
def contains (s p : Str) : Bool := decide (p <:+: s)

/-- The lower case of an ASCII letter. -/
def lowerByte (b : UInt8) : UInt8 := if 0x41 ≤ b ∧ b ≤ 0x5A then b + 0x20 else b

/-- The upper case of an ASCII letter. -/
def upperByte (b : UInt8) : UInt8 := if 0x61 ≤ b ∧ b ≤ 0x7A then b - 0x20 else b

/-- A string without regard to the case of its ASCII letters. -/
def foldCase (s : Str) : Str := s.map lowerByte

/-- `strings.EqualFold` against a word of ASCII letters among which no `k`
and no `s` (the two with a case variant outside ASCII), digits and
punctuation. -/
def equalFold (s word : Str) : Bool := foldCase s == foldCase word

/-- The part before the first `c`, and the part after it. -/
def cutFirst (c : UInt8) : Str → Option (Str × Str)
  | [] => none
  | b :: s => if b = c then some ([], s) else (cutFirst c s).map fun p => (b :: p.1, p.2)

/-- The part before the last `c`, and the part after it. -/
def cutLast (c : UInt8) : Str → Option (Str × Str)
  | [] => none
  | b :: s =>
    match cutLast c s with
    | some p => some (b :: p.1, p.2)
    | none => if b = c then some ([], s) else none

end SP.Go
