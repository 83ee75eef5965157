import Reckoner.Command.Numeral

/-! # Addresses to listen on

An address is a host and a service with a colon between them; a host with
colons stands in brackets.  A service is a number of 16 bits or a known
name. -/
set_option autoImplicit false
namespace Reckoner.Command

inductive AddressFault where
  | missingService
  | tooManyColons
  | missingBracket
  | unexpectedOpening
  | unexpectedClosing
  | invalidService (service : Text)
  | unknownService (service : Text)
  deriving DecidableEq, Repr, Inhabited

def AddressFault.message (address : Text) (fault : AddressFault) : Text :=
  let about (subject : Text) (what : String) := utf8 "address " ++ subject ++ utf8 (": " ++ what)
  utf8 "listen tcp: " ++
    match fault with
    | .missingService => about address "missing port in address"
    | .tooManyColons => about address "too many colons in address"
    | .missingBracket => about address "missing ']' in address"
    | .unexpectedOpening => about address "unexpected '[' in address"
    | .unexpectedClosing => about address "unexpected ']' in address"
    | .invalidService service => about service "invalid port"
    | .unknownService service => utf8 "lookup tcp/" ++ service ++ utf8 ": unknown port"

namespace Address

def bracketedService (t : Text) : Except AddressFault Text :=
  match Text.cut 93 t with
  | (_, none) => .error .missingBracket
  | (host, some behind) =>
    match behind with
    | 58 :: service =>
      if service.contains 58 then .error .tooManyColons
      else if host.contains 91 || service.contains 91 then .error .unexpectedOpening
      else if service.contains 93 then .error .unexpectedClosing
      else .ok service
    | _ => .error .missingService

def service (t : Text) : Except AddressFault Text :=
  if !t.contains 58 then .error .missingService
  else
    match t with
    | 91 :: rest => bracketedService rest
    | t =>
      let (_, behind) := Text.cut 58 t
      let service := behind.getD []
      if service.contains 58 then .error .tooManyColons
      else if t.contains 91 then .error .unexpectedOpening
      else if t.contains 93 then .error .unexpectedClosing
      else .ok service

/-- Numbers from here on are far out of range. -/
def serviceCutoff : UInt32 := 1073741824

/-- The number that a service writes, behind what was already read; `none` if it
is not a number.  Numbers are kept in 32 bits, and once one is far out of range
the rest does not matter. -/
def serviceNumber (n : UInt32) : Text → Option UInt32
  | [] => some n
  | b :: rest =>
    if !Text.isDigit b then none
    else if serviceCutoff ≤ n || 10 * n + (b - 48).toUInt32 < 10 * n then some serviceCutoff
    else serviceNumber (10 * n + (b - 48).toUInt32) rest

def knownServices : List String :=
  ["ftp", "ftps", "gopher", "http", "https", "imap2", "imap3", "imaps", "pop3", "pop3s", "smtp",
    "submissions", "ssh", "telnet"]

def serviceFault? (service : Text) : Option AddressFault :=
  let (negative, digits) := Numeral.sign service
  match serviceNumber 0 digits with
  | some n => if 65535 < n || (negative && n != 0) then some (.invalidService service) else none
  | none =>
    if (knownServices.map utf8).contains (Text.lowerAscii service) then none
    else some (.unknownService service)

/-- Why an address cannot be listened on; the empty one is that of the web. -/
def fault? (t : Text) : Option AddressFault :=
  if t.isEmpty then none
  else
    match service t with
    | .error fault => some fault
    | .ok p => serviceFault? p

end Address
end Reckoner.Command
