import Reckoner.Json

/-! # Writing JSON

Strings are written as well-formed text, a stray byte as U+FFFD.  Besides what
the format demands, the characters that matter to HTML and the two line
separators are escaped.  The indented form puts every member and item on a line
of its own. -/
set_option autoImplicit false
namespace Reckoner.Json

def shortEscapes : List (Char × Char) :=
  [('"', '"'), ('\\', '\\'), ('\x08', 'b'), ('\x0c', 'f'), ('\n', 'n'), ('\r', 'r'), ('\t', 't')]

def needsCode (c : Char) : Bool :=
  c.toNat < 0x20 || c = '<' || c = '>' || c = '&' || c.toNat = 0x2028 || c.toNat = 0x2029

def codeEscape (n : Nat) : Text :=
  utf8 "\\u" ++ [Text.hexDigit (n / 4096 % 16), Text.hexDigit (n / 256 % 16),
    Text.hexDigit (n / 16 % 16), Text.hexDigit (n % 16)]

def escaped : Rune → Text
  | .stray _ => Rune.replacement
  | .scalar c =>
    match shortEscapes.lookup c with
    | some letter => 92 :: String.utf8EncodeChar letter
    | none => if needsCode c then codeEscape c.toNat else String.utf8EncodeChar c

def quoted (t : Text) : Text := 34 :: (Rune.all t).flatMap escaped ++ [34]

def lineBreak (depth : Nat) : Text := 10 :: List.replicate (2 * depth) 32

/-- Pieces on lines of their own between brackets; nothing between them if
there is no piece. -/
def block (depth : Nat) (opening closing : UInt8) (pieces : List Text) : Text :=
  if pieces.isEmpty then [opening, closing]
  else opening :: lineBreak (depth + 1) ++ Text.join (44 :: lineBreak (depth + 1)) pieces ++
    lineBreak depth ++ [closing]

mutual
def indented (depth : Nat) : Json → Text
  | .null => utf8 "null"
  | .bool b => utf8 (if b then "true" else "false")
  | .number literal => literal
  | .string t => quoted t
  | .array items => block depth 91 93 (indentedItems (depth + 1) #[] items).toList
  | .object members => block depth 123 125 (indentedMembers (depth + 1) #[] members).toList

def indentedItems (depth : Nat) (written : Array Text) : List Json → Array Text
  | [] => written
  | j :: rest => indentedItems depth (written.push (indented depth j)) rest

def indentedMembers (depth : Nat) (written : Array Text) : List (Text × Json) → Array Text
  | [] => written
  | (name, j) :: rest =>
    indentedMembers depth (written.push (quoted name ++ utf8 ": " ++ indented depth j)) rest
end

mutual
def compact : Json → Text
  | .null => utf8 "null"
  | .bool b => utf8 (if b then "true" else "false")
  | .number literal => literal
  | .string t => quoted t
  | .array items => 91 :: Text.join [44] (compactItems #[] items).toList ++ [93]
  | .object members => 123 :: Text.join [44] (compactMembers #[] members).toList ++ [125]

def compactItems (written : Array Text) : List Json → Array Text
  | [] => written
  | j :: rest => compactItems (written.push (compact j)) rest

def compactMembers (written : Array Text) : List (Text × Json) → Array Text
  | [] => written
  | (name, j) :: rest => compactMembers (written.push (quoted name ++ 58 :: compact j)) rest
end

end Reckoner.Json
