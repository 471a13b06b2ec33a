import Shapoclyack.Library.PaddedOrder
import Shapoclyack.Text

set_option autoImplicit false

namespace Shapoclyack.VersionCompare

open Library

inductive Flavor where
  | deb
  | rpm
deriving DecidableEq, Repr

/-- What reading a version can raise: the error the callers catch, and `int`'s own. -/
inductive ParseError where
  | versionParse
  | value
deriving DecidableEq, Repr

/-- The calls version parsing adds: `str.isdigit`, true of digits `int` does not read. -/
structure VersionText extends Text where
  isdigit : String → Bool

/-- A parsed epoch:version-release triple. -/
structure Evr where
  epoch : ℤ
  version : String
  release : String
  flavor : Flavor
deriving DecidableEq

/-- `str(evr)`. -/
def Evr.toText (e : Evr) : String :=
  let head := if e.epoch = 0 then e.version else toString e.epoch ++ ":" ++ e.version
  if e.release = "" then head else head ++ "-" ++ e.release

/-- `text.partition(sep)`, none where the separator is not there. -/
def partition (sep : Char) (raw : String) : Option (String × String) :=
  if raw.toList.contains sep then
    some (String.ofList (raw.toList.takeWhile (· != sep)),
      String.ofList ((raw.toList.dropWhile (· != sep)).drop 1))
  else none

/-- `text.rpartition(sep)`, none where the separator is not there. -/
def rpartition (sep : Char) (raw : String) : Option (String × String) :=
  if raw.toList.contains sep then
    some (String.ofList ((raw.toList.rdropWhile (· != sep)).dropLast),
      String.ofList (raw.toList.rtakeWhile (· != sep)))
  else none

section Parse

variable (lib : VersionText)

/-- `_split_epoch`: digits `int` refuses are its own error, not a version's. -/
def splitEpoch (raw : String) : Except ParseError (ℤ × String) :=
  match partition ':' raw with
  | none => .ok (0, raw)
  | some (head, tail) =>
    if lib.isdigit head then
      match lib.int head with
      | none => .error .value
      | some epoch => .ok (epoch, tail)
    else .ok (0, raw)

def parseEvr (raw : String) (flavor : Flavor) : Except ParseError Evr :=
  let text := lib.strip raw
  if text = "" then .error .versionParse
  else
    match splitEpoch lib text with
    | .error e => .error e
    | .ok (epoch, rest) =>
      if rest = "" then .error .versionParse
      else
        let split := (rpartition '-' rest).getD (rest, "")
        if split.1 = "" then .error .versionParse
        else .ok { epoch := epoch, version := split.1, release := split.2, flavor := flavor }

end Parse

section Dpkg

/-- dpkg's `order()` of one character. -/
def dpkgOrder (c : Char) : ℤ :=
  if c.isDigit then 0
  else if c.isAlpha then c.toNat
  else if c = '~' then -1
  else c.toNat + 256

def headOrder : List Char → ℤ
  | [] => 0
  | c :: _ => dpkgOrder c

def startsNonDigit : List Char → Bool
  | [] => false
  | c :: _ => !c.isDigit

def startsDigit : List Char → Bool
  | [] => false
  | c :: _ => c.isDigit

/-- The walk over a stretch of non-digits: a verdict at the first difference, else what is left. -/
def nonDigits : ℕ → List Char → List Char → Except Ordering (List Char × List Char)
  | 0, a, b => .ok (a, b)
  | fuel + 1, a, b =>
    if startsNonDigit a || startsNonDigit b then
      if headOrder a ≠ headOrder b then .error (compare (headOrder a) (headOrder b))
      else nonDigits fuel a.tail b.tail
    else .ok (a, b)

def skipZeros (a : List Char) : List Char := a.dropWhile (· == '0')

/-- The walk over two numbers, with the first difference met. -/
def sharedDigits : Ordering → List Char → List Char → Ordering × List Char × List Char
  | firstDiff, x :: a, y :: b =>
    if x.isDigit && y.isDigit then
      sharedDigits (firstDiff.then (compare (x.toNat : ℤ) (y.toNat : ℤ))) a b
    else (firstDiff, x :: a, y :: b)
  | firstDiff, a, b => (firstDiff, a, b)

/-- `_dpkg_verrevcmp`; every round takes a character off one of the strings. -/
def verrevLoop : ℕ → List Char → List Char → Ordering
  | 0, _, _ => .eq
  | fuel + 1, a, b =>
    if a.isEmpty && b.isEmpty then .eq
    else
      match nonDigits (a.length + b.length) a b with
      | .error verdict => verdict
      | .ok (a, b) =>
        match sharedDigits .eq (skipZeros a) (skipZeros b) with
        | (firstDiff, a, b) =>
          if startsDigit a then .gt
          else if startsDigit b then .lt
          else firstDiff.then (verrevLoop fuel a b)

def dpkgVerrevcmp (left right : String) : Ordering :=
  verrevLoop (left.toList.length + right.toList.length) left.toList right.toList

def compareDpkgEvr (a b : Evr) : Ordering :=
  if a.epoch ≠ b.epoch then compare a.epoch b.epoch
  else if dpkgVerrevcmp a.version b.version ≠ .eq then dpkgVerrevcmp a.version b.version
  else dpkgVerrevcmp a.release b.release

def compareDpkgVersion (lib : VersionText) (left right : String) : Except ParseError Ordering :=
  match parseEvr lib left .deb with
  | .error e => .error e
  | .ok a =>
    match parseEvr lib right .deb with
    | .error e => .error e
    | .ok b => .ok (compareDpkgEvr a b)

end Dpkg

section Rpm

def isAlnum (c : Char) : Bool := c.isDigit || c.isAlpha

def skipSeparators (a : List Char) : List Char :=
  a.dropWhile fun c => !isAlnum c && c != '~' && c != '^'

def compareSegments (isnum : Bool) (left right : List Char) : Ordering :=
  if isnum then
    let left := skipZeros left
    let right := skipZeros right
    (compare left.length right.length).then
      (List.compareLex (compareOn Char.toNat) left right)
  else List.compareLex (compareOn Char.toNat) left right

/-- `rpmvercmp` past its test for equal strings; a round takes a character off each of the
strings. -/
def rpmLoop : ℕ → List Char → List Char → Ordering
  | 0, _, _ => .eq
  | fuel + 1, a, b =>
    match skipSeparators a, skipSeparators b with
    | [], [] => .eq
    | [], y :: _ =>
      if y = '~' then .gt else .lt
    | x :: _, [] =>
      if x = '~' then .lt else .gt
    | x :: a, y :: b =>
      if x = '~' ∨ y = '~' then
        if x ≠ '~' then .gt else if y ≠ '~' then .lt else rpmLoop fuel a b
      else if x = '^' ∨ y = '^' then
        if x ≠ '^' then .gt else if y ≠ '^' then .lt else rpmLoop fuel a b
      else
        let inSegment : Char → Bool := if x.isDigit then Char.isDigit else Char.isAlpha
        let segA := (x :: a).takeWhile inSegment
        let segB := (y :: b).takeWhile inSegment
        if segB.isEmpty then if x.isDigit then .gt else .lt
        else (compareSegments x.isDigit segA segB).then
          (rpmLoop fuel ((x :: a).dropWhile inSegment) ((y :: b).dropWhile inSegment))

def rpmvercmp (left right : String) : Ordering :=
  if left = right then .eq
  else rpmLoop (left.toList.length + right.toList.length + 1) left.toList right.toList

def compareRpmEvr (a b : Evr) : Ordering :=
  if a.epoch ≠ b.epoch then compare a.epoch b.epoch
  else if rpmvercmp a.version b.version ≠ .eq then rpmvercmp a.version b.version
  else rpmvercmp a.release b.release

def compareRpmVersion (lib : VersionText) (left right : String) : Except ParseError Ordering :=
  match parseEvr lib left .rpm with
  | .error e => .error e
  | .ok a =>
    match parseEvr lib right .rpm with
    | .error e => .error e
    | .ok b => .ok (compareRpmEvr a b)

end Rpm

/-- `compare`: two versions in one grammar. -/
def compareVersion (lib : VersionText) (left right : String) (flavor : Flavor) :
    Except ParseError Ordering :=
  match flavor with
  | .deb => compareDpkgVersion lib left right
  | .rpm => compareRpmVersion lib left right

/-- `is_fixed`: the installed version is at or above the fixed one. -/
def isFixed (lib : VersionText) (installed fixed : String) (flavor : Flavor) :
    Except ParseError Bool :=
  match compareVersion lib installed fixed flavor with
  | .error e => .error e
  | .ok order => .ok order.isGE

end Shapoclyack.VersionCompare
