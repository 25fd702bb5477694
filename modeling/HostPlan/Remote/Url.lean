import HostPlan.Data.Json.Reader
import HostPlan.Text.DecimalDigit
import HostPlan.Text.Numeral
import HostPlan.Text.Search
/-!
Addresses on the web. An address is written in one form: scheme and host in small letters, no port
that the scheme implies, no dot segments, and escapes for what its parts may not hold.
-/
namespace HostPlan.Remote

open Text

structure Url where
  scheme : List Char
  userinfo : List Char
  host : List Char
  port : Option Nat
  path : List Char
  query : Option (List Char)
deriving DecidableEq, Repr

/-- The part before the first character of a kind, and the part from it on. -/
def splitBefore (mark : Char → Bool) (s : List Char) : List Char × List Char :=
  (s.takeWhile fun c => !mark c, s.dropWhile fun c => !mark c)

/-- A scheme and its colon at the start of an address. -/
def scheme? (s : List Char) : Option (List Char × List Char) :=
  match splitBefore (fun c => !(c.isAlphanum || c == '+' || c == '.' || c == '-')) s with
  | (c :: name, ':' :: r) => if c.isAlpha then some (c :: name, r) else none
  | _ => none

/-- The part before the last at-sign of an authority, and the host and port behind it. -/
def userinfo? (authority : List Char) : List Char × List Char :=
  if authority.contains '@' then
    let (rest, user) := splitBefore (· == '@') authority.reverse
    ((user.drop 1).reverse, rest.reverse)
  else ([], authority)

def hostAndPort (s : List Char) : List Char × List Char :=
  match s with
  | '[' :: _ =>
    let (inner, r) := splitBefore (· == ']') s
    (inner ++ [']'], (r.drop 1).drop 1)
  | _ =>
    let (name, r) := splitBefore (· == ':') s
    (name, r.drop 1)

def defaultPort? (scheme : List Char) : Option Nat :=
  if scheme = "http".toList ∨ scheme = "ws".toList then some 80
  else if scheme = "https".toList ∨ scheme = "wss".toList then some 443
  else if scheme = "ftp".toList then some 21
  else none

def explicitPort? (scheme digits : List Char) : Option Nat :=
  if digits.isEmpty then none
  else
    let n := decimalValue digits
    if defaultPort? scheme = some n then none else some n

def isPlainChar (forbidden : List Char) (c : Char) : Bool :=
  decide (0x20 < c.toNat) && decide (c.toNat < 0x7F) && !forbidden.contains c

def forbiddenInQuery : List Char := "\"#<>".toList
def forbiddenInPath : List Char := forbiddenInQuery ++ "?`\x7b\x7d".toList
def forbiddenInUser : List Char := forbiddenInPath ++ "/:;=@[\\]^|".toList

def upperHexDigit (n : Nat) : Char := "0123456789ABCDEF".toList.getD n '0'

def percentByte (b : UInt8) : List Char :=
  ['%', upperHexDigit (b.toNat / 16), upperHexDigit (b.toNat % 16)]

/-- The text with escapes for all characters that it may not hold. -/
def percentEncoded (forbidden s : List Char) : List Char :=
  s.flatMap fun c =>
    if isPlainChar forbidden c then [c]
    else (String.ofList [c]).toUTF8.toList.flatMap percentByte

/-- Whether a piece of a path leads nowhere else. -/
def isDots (piece : List Char) : Bool := piece == ['.'] || piece == ['.', '.']

/-- Pieces of a path after the steps that its dots make; the first list is read backwards. -/
def walk (done : List (List Char)) : List (List Char) → List (List Char)
  | [] => done.reverse
  | piece :: r =>
    if piece = ['.'] then walk done r
    else if piece = ['.', '.'] then
      match done with
      | [] => walk [] r
      | [[]] => walk [[]] r
      | _ :: earlier => walk earlier r
    else walk (piece :: done) r

def joinPieces : List (List Char) → List Char
  | [] => []
  | [p] => p
  | p :: r => p ++ '/' :: joinPieces r

def withoutDots (path : List Char) : List Char :=
  if (cutAt '/' path).any isDots then joinPieces (walk [] (cutAt '/' path)) else path

namespace Url

def ofText (s : List Char) : Url :=
  let (s, _) := splitBefore (· == '#') s
  let (scheme, r) := (scheme? s).getD ([], s)
  let scheme := scheme.map Char.toLower
  let (authority, r) :=
    match r with
    | '/' :: '/' :: t => splitBefore (fun c => c == '/' || c == '?') t
    | _ => ([], r)
  let (user, rest) := userinfo? authority
  let (name, port) := hostAndPort rest
  let (path, query) := splitBefore (· == '?') r
  { scheme
    userinfo := percentEncoded forbiddenInUser user
    host := name.map Char.toLower
    port := explicitPort? scheme port
    path := percentEncoded forbiddenInPath
      (if scheme.isEmpty && authority.isEmpty then path else withoutDots path)
    query :=
      match query with
      | [] => none
      | _ :: q => some (percentEncoded forbiddenInQuery q) }

def toText (u : Url) : List Char :=
  let authority :=
    (if u.userinfo.isEmpty then [] else u.userinfo ++ ['@']) ++ u.host ++
      match u.port with
      | some n => ':' :: decimal n
      | none => []
  (if u.scheme.isEmpty then [] else u.scheme ++ [':']) ++
    (if authority.isEmpty then [] else '/' :: '/' :: authority) ++ u.path ++
    match u.query with
    | some q => '?' :: q
    | none => []

end Url

/-- The address of the platform without slashes at its end. -/
def apiUrl (address : String) : List Char :=
  (address.toList.reverse.dropWhile (· == '/')).reverse

def requestUrl (address path : String) : String :=
  let whole := apiUrl address ++ "/api/v1".toList ++ path.toList
  String.ofList (Url.ofText whole).toText

end HostPlan.Remote
