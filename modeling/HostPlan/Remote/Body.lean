import HostPlan.Data.Json.Reader
import HostPlan.Text.Search
import HostPlan.Text.Utf8
/-!
The body of a response: as text in the character set that the response declares, and as JSON in the
encoding that its first bytes give away.
-/
namespace HostPlan.Remote

open Text

inductive Charset where
  | utf8
  | latin1
  | ascii
  | windows1252
deriving DecidableEq, Repr

namespace Charset

/-- The names of a character set, in small letters and with a low line for every run of other
marks. -/
def names : Charset → List String
  | .utf8 => ["utf_8", "u8", "utf", "utf8", "utf8_ucs2", "utf8_ucs4", "cp65001"]
  | .latin1 =>
    ["latin_1", "8859", "cp819", "csisolatin1", "ibm819", "iso8859", "iso8859_1", "iso_8859_1",
     "iso_8859_1_1987", "iso_ir_100", "l1", "latin", "latin1"]
  | .ascii =>
    ["ascii", "646", "ansi_x3_4_1968", "ansi_x3_4_1986", "cp367", "csascii", "ibm367", "iso646_us",
     "iso_646_irv_1991", "iso_ir_6", "us", "us_ascii"]
  | .windows1252 => ["cp1252", "1252", "windows_1252"]

def all : List Charset := [.utf8, .latin1, .ascii, .windows1252]

/-- A name in the form in which the known names are written. -/
def plainName (name : List Char) : String :=
  let marked := name.map fun c => if c.isAlphanum then c.toLower else '_'
  joined "_" (((cutAt '_' marked).filter fun p => !p.isEmpty).map String.ofList)

def ofName? (name : List Char) : Option Charset := all.find? fun c => plainName name ∈ c.names

/-- The value of the parameter that names a character set. -/
def parameter? (contentType : List Char) : Option (List Char) :=
  match "charset=".toList.isPrefixOf? contentType with
  | some r =>
    some ((r.dropWhile (· == '"')).takeWhile fun c => c != ';' && c != '"' && c != ' ')
  | none =>
    match contentType with
    | [] => none
    | _ :: r => parameter? r

/-- The character set of a content type; text is UTF-8 unless another known one is declared. -/
def ofContentType (contentType : String) : Charset :=
  ((parameter? (contentType.toList.map Char.toLower)).bind ofName?).getD .utf8

/-- The characters that stand in place of the controls from 128 to 159; a zero marks a gap. -/
def windowsCharacters : List Nat :=
  [0x20AC, 0, 0x201A, 0x0192, 0x201E, 0x2026, 0x2020, 0x2021,
   0x02C6, 0x2030, 0x0160, 0x2039, 0x0152, 0, 0x017D, 0,
   0, 0x2018, 0x2019, 0x201C, 0x201D, 0x2022, 0x2013, 0x2014,
   0x02DC, 0x2122, 0x0161, 0x203A, 0x0153, 0, 0x017E, 0x0178]

def windowsChar (n : Nat) : Char :=
  if n < 128 ∨ 160 ≤ n then Char.ofNat n
  else
    match windowsCharacters.getD (n - 128) 0 with
    | 0 => '\uFFFD'
    | m => Char.ofNat m

def decode (c : Charset) (bytes : List UInt8) : List Char :=
  match c with
  | .utf8 => Utf8.decodeLossy bytes
  | .latin1 => bytes.map fun b => Char.ofNat b.toNat
  | .ascii => bytes.map fun b => if b.toNat < 128 then Char.ofNat b.toNat else '\uFFFD'
  | .windows1252 => bytes.map fun b => windowsChar b.toNat

end Charset

/-- Units of two bytes; an odd byte at the end makes none. -/
def units16 (bigEndian : Bool) : List UInt8 → Option (List Nat)
  | [] => some []
  | [_] => none
  | a :: b :: r =>
    let n := if bigEndian then 256 * a.toNat + b.toNat else 256 * b.toNat + a.toNat
    (units16 bigEndian r).map (n :: ·)

/-- Characters of units of two bytes, in which surrogates stand in pairs. -/
def charsOfUnits : List Nat → Option (List Char)
  | [] => some []
  | n :: r =>
    if n < 0xD800 ∨ 0xE000 ≤ n then (charsOfUnits r).map (Char.ofNat n :: ·)
    else
      match r with
      | m :: t =>
        if n < 0xDC00 ∧ 0xDC00 ≤ m ∧ m < 0xE000 then
          (charsOfUnits t).map (Char.ofNat (0x10000 + (n - 0xD800) * 0x400 + (m - 0xDC00)) :: ·)
        else none
      | [] => none

def units32 (bigEndian : Bool) : List UInt8 → Option (List Nat)
  | [] => some []
  | a :: b :: c :: d :: r =>
    let n :=
      if bigEndian then
        ((a.toNat * 256 + b.toNat) * 256 + c.toNat) * 256 + d.toNat
      else ((d.toNat * 256 + c.toNat) * 256 + b.toNat) * 256 + a.toNat
    (units32 bigEndian r).map (n :: ·)
  | _ => none

def charOf? (n : Nat) : Option Char := if n.isValidChar then some (Char.ofNat n) else none

def utf16? (bigEndian : Bool) (bytes : List UInt8) : Option (List Char) :=
  (units16 bigEndian bytes).bind charsOfUnits

def utf32? (bigEndian : Bool) (bytes : List UInt8) : Option (List Char) :=
  (units32 bigEndian bytes).bind fun ns => ns.mapM charOf?

/-- The text of JSON bytes. A byte order mark names the encoding; without one, the zeros among the
first bytes do, because JSON begins with a character of ASCII. -/
def jsonText? (bytes : List UInt8) : Option (List Char) :=
  match bytes.map UInt8.toNat, bytes with
  | 0 :: 0 :: 0xFE :: 0xFF :: _, _ :: _ :: _ :: _ :: r => utf32? true r
  | 0xFF :: 0xFE :: 0 :: 0 :: _, _ :: _ :: _ :: _ :: r => utf32? false r
  | 0xFE :: 0xFF :: _, _ :: _ :: r => utf16? true r
  | 0xFF :: 0xFE :: _, _ :: _ :: r => utf16? false r
  | 0xEF :: 0xBB :: 0xBF :: _, _ :: _ :: _ :: r => Utf8.decode? r
  | [0, _], _ => utf16? true bytes
  | [_, 0], _ => utf16? false bytes
  | 0 :: b :: _ :: _ :: _, _ => if b = 0 then utf32? true bytes else utf16? true bytes
  | _ :: 0 :: c :: d :: _, _ => if c = 0 ∧ d = 0 then utf32? false bytes else utf16? false bytes
  | _, _ => Utf8.decode? bytes

def json? (bytes : List UInt8) : Option Value := (jsonText? bytes).bind Json.read?

end HostPlan.Remote
