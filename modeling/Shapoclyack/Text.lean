import Mathlib.Data.List.DropRight
import Mathlib.Tactic

set_option autoImplicit false

namespace Shapoclyack

/-- The standard-library calls made on scanner text; no result depends on which functions they
are. -/
structure Text where
  strip : String → String
  lower : String → String
  upper : String → String
  casefold : String → String
  /-- The canonical spelling `ipaddress.ip_address` reads, none where it raises. -/
  ipAddress : String → Option String
  /-- `int`, none where it raises. -/
  int : String → Option Int

/-- `value or ""` for a nullable column. -/
def text (value : Option String) : String := value.getD ""

/-- `value or None`. -/
def orNone (value : String) : Option String :=
  if value = "" then none else some value

/-- `value[:limit]`. -/
def clip (limit : ℕ) (value : String) : String :=
  String.ofList (value.toList.take limit)

/-- `value.startswith(head)`. -/
def startsWith (head value : String) : Bool :=
  head.toList.isPrefixOf value.toList

/-- `value[len(head):]`. -/
def dropHead (head value : String) : String :=
  String.ofList (value.toList.drop head.toList.length)

/-- `value.strip(chars)` for a set of characters. -/
def stripChars (p : Char → Bool) (value : String) : String :=
  String.ofList ((value.toList.dropWhile p).rdropWhile p)

def rstripDots (value : String) : String :=
  String.ofList (value.toList.rdropWhile (· == '.'))

/-- One host as both sides compare it: an IP canonicalised, a name lowercased. -/
def normalizeHost (t : Text) (value : String) : String :=
  let host := t.lower (rstripDots (stripChars (fun c => c == '[' || c == ']') (t.strip value)))
  (t.ipAddress host).getD host

def isIp (t : Text) (value : String) : Bool :=
  (t.ipAddress value).isSome

/-- `_port`: the text before the first slash as a port number, none outside 1..65535. -/
def portNumber (t : Text) (value : String) : Option ℕ :=
  match t.int (String.ofList ((t.strip value).toList.takeWhile (· != '/'))) with
  | none => none
  | some port => if 1 ≤ port ∧ port ≤ 65535 then some port.toNat else none

def portOf (t : Text) (value : Option String) : Option ℕ :=
  match value with
  | none => none
  | some port => if port = "" then none else portNumber t port

/-- `timedelta(days=n)`; instants and their differences are counted in microseconds. -/
def days (n : ℤ) : ℤ := n * 86400000000

section Ascii

def ascii : Text where
  strip value := stripChars (fun c => c == ' ' || c == '\t' || c == '\n') value
  lower value := String.ofList (value.toList.map Char.toLower)
  upper value := String.ofList (value.toList.map Char.toUpper)
  casefold value := String.ofList (value.toList.map Char.toLower)
  ipAddress value :=
    if value ≠ "" && value.toList.all (fun c => c.isDigit || c == '.') then some value else none
  int value :=
    if value ≠ "" && value.toList.all Char.isDigit then
      some (value.toList.foldl (fun n c => 10 * n + ((c.toNat : ℤ) - 48)) 0)
    else none

example : normalizeHost ascii " WEB1.example. " = "web1.example" := by decide +kernel

example : portOf ascii (some "443/tcp") = some 443 := by decide +kernel

end Ascii

end Shapoclyack
