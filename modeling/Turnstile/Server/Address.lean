import Turnstile.Decimal.Shortest
import Turnstile.Settings.Basic
import Turnstile.Text.Lowercase
import Turnstile.Text.Scan

/-!
# Addresses of store servers

A server is named by a URL: by its host and the number that it listens on there, or by the path of a
socket, and with one of its databases. `Address.ofUrl` reads such a URL or says why it names no
server.
-/

namespace Turnstile.Server

open Text

/-- Where a server listens, and which of its databases is meant. -/
inductive Address
  | onHost (name : String) (number : Nat) (database : Int)
  | onSocket (path : String) (database : Int)
deriving DecidableEq, Repr

/-- Why a URL names no server. -/
inductive AddressTrouble
  | unreadable
  | noHost
  | noPath
  | badDatabase
  /-- The connection would have to be encrypted. -/
  | needsEncryption
deriving DecidableEq, Repr

/-- The wording of a trouble. -/
def AddressTrouble.text : AddressTrouble → String
  | unreadable => "Redis URL did not parse"
  | noHost => "Missing hostname"
  | noPath => "Missing path"
  | badDatabase => "Invalid database number"
  | needsEncryption => "can't connect with TLS, the feature is not enabled"

namespace Address

/-- The number that servers listen on where none is said. -/
def usualNumber : Nat := 6379

/-- The scheme of a URL in lowercase, and the text after its colon. -/
def scheme? (cs : List Char) : Option (String × List Char) := do
  let (name, rest) := cs.span fun c => c.isAlphanum || c == '+' || c == '-' || c == '.'
  guard ((name.head?.map Char.isAlpha).getD false)
  let rest ← strip? [':'] rest
  some (lowerAscii (String.ofList name), rest)

/-- The text after the last `@`. -/
def afterLast (cs : List Char) : List Char :=
  (cs.reverse.takeWhile (· != '@')).reverse

/-- Characters that no host has. -/
def isForbidden (c : Char) : Bool :=
  c.toNat == 0 || "\t\n\r #/:<>?@[\\]^|".toList.contains c

/-- A host and the text after it. -/
def host? (cs : List Char) : Option (List Char × List Char) :=
  match cs with
  | '[' :: r =>
    let (inside, rest) := r.span (· != ']')
    match rest with
    | ']' :: rest =>
      if !inside.isEmpty && inside.all fun c => (hexValue? c).isSome || c == ':' || c == '.' then
        some (inside, rest)
      else none
    | _ => none
  | cs =>
    let (host, rest) := cs.span (· != ':')
    if host.any isForbidden then none else some (host, rest)

/-- The number after a host, below 65536. -/
def listening? : List Char → Option Nat
  | [] => some usualNumber
  | ':' :: digits =>
    if digits.isEmpty then some usualNumber
    else if digits.all isDigit && natOfDigits digits < Nat.pow 2 16 then some (natOfDigits digits)
    else none
  | _ => none

def trimSlashes (cs : List Char) : List Char :=
  ((cs.dropWhile (· == '/')).reverse.dropWhile (· == '/')).reverse

/-- The database that a path names. -/
def database? (path : List Char) : Option Int :=
  match trimSlashes path with
  | [] => some 0
  | name => readSigned? 64 (String.ofList name)

/-- The host and its number in the part of a URL between two slashes and the path. -/
def authority? (cs : List Char) : Option (String × Nat) := do
  let place := afterLast cs
  let (host, rest) ← host? place
  let number ← listening? rest
  -- A user or a number without a host is a mistake.
  guard (!host.isEmpty || (place == cs && rest.isEmpty))
  some (String.ofList host, number)

/-- Reads what follows the scheme of a server on a host. -/
def ofHost (encrypted : Bool) (cs : List Char) : Except AddressTrouble Address := do
  let cs := cs.takeWhile fun c => c != '?' && c != '#'
  match strip? ['/', '/'] cs with
  | none => throw .noHost
  | some rest =>
    let (authority, path) := rest.span (· != '/')
    match authority? authority with
    | none => throw .unreadable
    | some (name, number) =>
      if name.isEmpty then throw .noHost
      else if encrypted then throw .needsEncryption
      else
        match database? path with
        | none => throw .badDatabase
        | some database => return .onHost name number database

/-- The value of the last entry `db` between ampersands. -/
def queried (query : List Char) : Option (List Char) :=
  ((splitOnChar '&' query).filterMap (strip? "db=".toList)).getLast?

/-- Reads what follows the scheme of a server on a socket of this machine. -/
def ofSocket (cs : List Char) : Except AddressTrouble Address := do
  let cs := cs.takeWhile (· != '#')
  let (place, query) := cs.span (· != '?')
  let path ← match strip? ['/', '/'] place with
    | none => pure place
    | some rest =>
      let (host, path) := rest.span (· != '/')
      if host.isEmpty || host == "localhost".toList then pure path else throw .noPath
  if path.head? != some '/' then throw .noPath
  match queried (query.drop 1) with
  | none => return .onSocket (String.ofList path) 0
  | some text =>
    match readSigned? 64 (String.ofList text) with
    | none => throw .badDatabase
    | some database => return .onSocket (String.ofList path) database

/-- The server that a URL names. -/
def ofUrl (url : String) : Except AddressTrouble Address :=
  let isEdge (c : Char) : Bool := c.toNat ≤ 0x20
  let cs := ((url.toList.dropWhile isEdge).reverse.dropWhile isEdge).reverse
  let cs := cs.filter fun c => c != '\t' && c != '\n' && c != '\r'
  match scheme? cs with
  | some ("redis", rest) => ofHost false rest
  | some ("rediss", rest) => ofHost true rest
  | some ("unix", rest) | some ("redis+unix", rest) => ofSocket rest
  | _ => throw .unreadable

end Address

/-! ### Connecting -/

def address (s : ServerSettings) : Except Fault Address :=
  (Address.ofUrl s.url).mapError fun t =>
    Fault.configuration s!"invalid redis url: {t.text}- InvalidClientConfig"

/-- Why a server at an address is not reached from a machine that is on no network and has no
sockets. -/
def silence : Address → String
  | .onHost .. => "Network is unreachable (os error 101)"
  | .onSocket .. => "No such file or directory (os error 2)"

/-- Tries to connect from a machine that is on no network. -/
def connectOffline (s : ServerSettings) : Fault :=
  match address s with
  | .error f => f
  | .ok a => Fault.storeUnavailable StoreBackend.redis.label (silence a)

end Turnstile.Server
