import Reckoner.Json

/-! # Reading JSON

`Json.first?` reads the value a text begins with and does not look at what
follows it.  A string is read in two steps: its escapes are taken away byte by
byte, and the stray bytes that are left become U+FFFD.  Nesting is limited. -/
set_option autoImplicit false
namespace Reckoner.Json

def isBlankByte (b : UInt8) : Bool := b = 32 || b = 9 || b = 10 || b = 13

def skipBlanks (t : Text) : Text := t.dropWhile isBlankByte

def shortEscape? (letter : UInt8) : Option UInt8 :=
  [(34, 34), (92, 92), (47, 47), (98, 8), (102, 12), (110, 10), (114, 13), (116, 9)].lookup letter

def codeUnit? (a b c d : UInt8) : Option Nat :=
  match Text.hexValue? a, Text.hexValue? b, Text.hexValue? c, Text.hexValue? d with
  | some a, some b, some c, some d => some (4096 * a + 256 * b + 16 * c + d)
  | _, _, _, _ => none

def isHighSurrogate (n : Nat) : Bool := 0xD800 ≤ n && n < 0xDC00

def isLowSurrogate (n : Nat) : Bool := 0xDC00 ≤ n && n < 0xE000

def paired (high low : Nat) : Char :=
  Char.ofNat (0x10000 + (high - 0xD800) * 0x400 + (low - 0xDC00))

/-- A high surrogate that no low one followed becomes U+FFFD. -/
def settled (pending : Option Nat) (done : Array UInt8) : Array UInt8 :=
  if pending.isSome then done ++ Rune.replacement else done

/-- The bytes read so far with one more escaped code unit, and the high
surrogate that now waits for its partner. -/
def withUnit (pending : Option Nat) (done : Array UInt8) (unit : Nat) : Option Nat × Array UInt8 :=
  if isHighSurrogate unit then (some unit, settled pending done)
  else if isLowSurrogate unit then
    match pending with
    | some high => (none, done ++ String.utf8EncodeChar (paired high unit))
    | none => (none, done ++ Rune.replacement)
  else (none, settled pending done ++ String.utf8EncodeChar (Char.ofNat unit))

def unescaped (pending : Option Nat) (done : Array UInt8) : Text → Option (Text × Text)
  | [] => none
  | b :: rest =>
    if b = 34 then some ((settled pending done).toList, rest)
    else if b = 92 then
      match rest with
      | [] => none
      | e :: more =>
        if e = 117 then
          match more with
          | w :: x :: y :: z :: behind =>
            match codeUnit? w x y z with
            | some unit =>
              unescaped (withUnit pending done unit).1 (withUnit pending done unit).2 behind
            | none => none
          | _ => none
        else
          match shortEscape? e with
          | some c => unescaped none ((settled pending done).push c) more
          | none => none
    else if b < 32 then none
    else unescaped none ((settled pending done).push b) rest

def string? (t : Text) : Option (Text × Text) :=
  (unescaped none #[] t).map fun (bytes, rest) => (bytes.wellFormed, rest)

def digits? (t : Text) : Option (Text × Text) :=
  let digits := t.takeWhile Text.isDigit
  if digits.isEmpty then none else some (digits, t.dropWhile Text.isDigit)

/-- The integer part of a number: a zero stands alone. -/
def integerPart? (t : Text) : Option (Text × Text) :=
  match t with
  | 48 :: rest => some ([48], rest)
  | t => digits? t

def fractionPart? (t : Text) : Option (Text × Text) :=
  match t with
  | 46 :: rest => (digits? rest).map fun (digits, rest) => (46 :: digits, rest)
  | t => some ([], t)

def signPart (t : Text) : Text × Text :=
  match t with
  | [] => ([], [])
  | b :: rest => if b = 43 || b = 45 then ([b], rest) else ([], b :: rest)

def exponentPart? (t : Text) : Option (Text × Text) :=
  match t with
  | [] => some ([], [])
  | b :: rest =>
    if b = 69 || b = 101 then
      let (sign, rest) := signPart rest
      (digits? rest).map fun (digits, rest) => (b :: sign ++ digits, rest)
    else some ([], b :: rest)

def minusPart (t : Text) : Text × Text :=
  match t with
  | 45 :: rest => ([45], rest)
  | t => ([], t)

def number? (t : Text) : Option (Text × Text) :=
  let (minus, t) := minusPart t
  match integerPart? t with
  | none => none
  | some (integer, t) =>
    match fractionPart? t with
    | none => none
    | some (fraction, t) =>
      (exponentPart? t).map fun (exponent, t) => (minus ++ integer ++ fraction ++ exponent, t)

def plain? (t : Text) : Option (Json × Text) :=
  match Text.dropHead? (utf8 "null") t, Text.dropHead? (utf8 "true") t,
      Text.dropHead? (utf8 "false") t with
  | some rest, _, _ => some (.null, rest)
  | _, some rest, _ => some (.bool true, rest)
  | _, _, some rest => some (.bool false, rest)
  | none, none, none => (number? t).map fun (literal, rest) => (.number literal, rest)

mutual
/-- A value and the text behind it, with at most `depth` arrays and objects in
each other. -/
def value? (fuel depth : Nat) (t : Text) : Option (Json × Text) :=
  match fuel with
  | 0 => none
  | fuel + 1 =>
    match skipBlanks t with
    | [] => none
    | b :: rest =>
      if b = 34 then (string? rest).map fun (s, rest) => (.string s, rest)
      else if b = 91 then
        if depth = 0 then none
        else match skipBlanks rest with
          | 93 :: behind => some (.array [], behind)
          | rest => items? fuel (depth - 1) #[] rest
      else if b = 123 then
        if depth = 0 then none
        else match skipBlanks rest with
          | 125 :: behind => some (.object [], behind)
          | rest => members? fuel (depth - 1) #[] rest
      else plain? (b :: rest)

def items? (fuel depth : Nat) (done : Array Json) (t : Text) : Option (Json × Text) :=
  match fuel with
  | 0 => none
  | fuel + 1 =>
    match value? fuel depth t with
    | none => none
    | some (j, rest) =>
      match skipBlanks rest with
      | 44 :: more => items? fuel depth (done.push j) more
      | 93 :: behind => some (.array (done.push j).toList, behind)
      | _ => none

def members? (fuel depth : Nat) (done : Array (Text × Json)) (t : Text) : Option (Json × Text) :=
  match fuel with
  | 0 => none
  | fuel + 1 =>
    match skipBlanks t with
    | 34 :: rest =>
      match string? rest with
      | none => none
      | some (name, rest) =>
        match skipBlanks rest with
        | 58 :: rest =>
          match value? fuel depth rest with
          | none => none
          | some (j, rest) =>
            match skipBlanks rest with
            | 44 :: more => members? fuel depth (done.push (name, j)) more
            | 125 :: behind => some (.object (done.push (name, j)).toList, behind)
            | _ => none
        | _ => none
    | _ => none
end

def depthLimit : Nat := 10000

/-- The value that a text begins with.  Every two nested calls of the reader
take at least one byte, so the fuel suffices. -/
def first? (t : Text) : Option Json := (value? (2 * t.length + 2) depthLimit t).map Prod.fst

end Reckoner.Json
