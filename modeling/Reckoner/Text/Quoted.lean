import Reckoner.Text.Printable

/-! # Quoted text

Between quotation marks a text is shown so that it fits on one line: printable
characters stand for themselves, the mark and the backslash are escaped, common
controls have an escape of their own, and everything else is shown by its
code.  A stray byte is shown by its value. -/
set_option autoImplicit false
namespace Reckoner.Text

def controlEscapes : List (Char × UInt8) :=
  [('\x07', 97), ('\x08', 98), ('\x0c', 102), ('\n', 110), ('\r', 114), ('\t', 116), ('\x0b', 118)]

def hexNumber (width n : Nat) : Text :=
  ((List.range width).map fun i => hexDigit (n / Nat.pow 16 i % 16)).reverse

def byteEscape (b : UInt8) : Text := utf8 "\\x" ++ hexByte b

def quotedRune (mark : Char) : Rune → Text
  | .stray b => byteEscape b
  | .scalar c =>
    if c = mark || c = '\\' then 92 :: String.utf8EncodeChar c
    else if isPrintable c then String.utf8EncodeChar c
    else match controlEscapes.lookup c with
      | some letter => [92, letter]
      | none =>
        if c.toNat < 0x20 || c.toNat = 0x7F then byteEscape (UInt8.ofNat c.toNat)
        else if c.toNat < 0x10000 then utf8 "\\u" ++ hexNumber 4 c.toNat
        else utf8 "\\U" ++ hexNumber 8 c.toNat

def quotedWith (mark : Char) (t : Text) : Text :=
  String.utf8EncodeChar mark ++ (Rune.all t).flatMap (quotedRune mark) ++ String.utf8EncodeChar mark

def quoted (t : Text) : Text := quotedWith '"' t

def quotedChar (c : Char) : Text := quotedWith '\'' (String.utf8EncodeChar c)

/-- A text in double quotation marks, with every byte outside ASCII shown by
its value. -/
def quotedBytes (t : Text) : Text :=
  34 :: t.flatMap (fun b =>
    if b < 32 || 128 ≤ b then byteEscape b else if b = 34 || b = 92 then [92, b] else [b]) ++ [34]

end Reckoner.Text
