import ExecutionFinality.Library.JsonText
import ExecutionFinality.Library.Utf16
import Mathlib.Data.List.TakeDrop
import Mathlib.Data.Rat.Defs

/-! A reader of JSON text. It keeps numbers as they are spelled, strings as the UTF-16 units that
they and their escapes stand for, and every member of an object. -/
namespace ExecutionFinality

/-- The exponent of a number; a sign is negative or not. -/
structure JsonExponent where
  capital : Bool
  sign : Option Bool
  first : Fin 10
  rest : List (Fin 10)
  deriving DecidableEq

/-- A number as it is spelled; the integer part has no leading zeros. -/
structure JsonNumber where
  negative : Bool
  whole : Nat
  fraction : List (Fin 10)
  exponent : Option JsonExponent
  deriving DecidableEq

inductive JsonDoc where
  | null
  | bool (b : Bool)
  | num (n : JsonNumber)
  | str (s : List UInt16)
  | arr (xs : List JsonDoc)
  | obj (es : List (List UInt16 × JsonDoc))

namespace JsonNumber

def digitsText (ds : List (Fin 10)) : List Char := ds.map fun d => Nat.digitChar d.val

def ofDigits (ds : List (Fin 10)) : Nat := ds.foldl (fun n d => 10 * n + d.val) 0

end JsonNumber

open JsonNumber (digitsText ofDigits)

namespace JsonExponent

def signText : Option Bool → List Char
  | none => []
  | some false => ['+']
  | some true => ['-']

def text (e : JsonExponent) : List Char :=
  (if e.capital then 'E' else 'e') :: signText e.sign ++ digitsText (e.first :: e.rest)

def value (e : JsonExponent) : ℤ := if e.sign = some true then -ofDigits (e.first :: e.rest) else ofDigits (e.first :: e.rest)

end JsonExponent

namespace JsonNumber

def fractionText (ds : List (Fin 10)) : List Char := if ds = [] then [] else '.' :: digitsText ds

def exponentText : Option JsonExponent → List Char
  | none => []
  | some e => e.text

def text (n : JsonNumber) : List Char :=
  (if n.negative then ['-'] else []) ++ Nat.toDigits 10 n.whole ++ fractionText n.fraction ++ exponentText n.exponent

/-- No point and no exponent -/
def IsInteger (n : JsonNumber) : Prop := n.fraction = [] ∧ n.exponent = none

instance (n : JsonNumber) : Decidable n.IsInteger := inferInstanceAs (Decidable (_ ∧ _))

/-- The integer that the digits before the point spell -/
def int (n : JsonNumber) : Int := if n.negative then -n.whole else n.whole

def value (n : JsonNumber) : ℚ :=
  (if n.negative then -1 else 1) * (n.whole + ofDigits n.fraction / 10^n.fraction.length) *
    10^(n.exponent.elim 0 JsonExponent.value)

/-- The plain spelling of an integer -/
def ofInt (n : Int) : JsonNumber := ⟨n < 0,n.natAbs,[],none⟩

def minusZero : JsonNumber := ⟨true,0,[],none⟩

end JsonNumber

namespace JsonDoc

/-- White space between tokens -/
def blank (c : Char) : Bool := c = ' ' || c = '\t' || c = '\n' || c = '\r'

def skip (s : List Char) : List Char := s.dropWhile blank

def digit (c : Char) : Fin 10 := Fin.ofNat 10 (c.toNat - 48)

def readDigits (s : List Char) : List (Fin 10) × List Char :=
  ((s.takeWhile Char.isDigit).map digit,s.dropWhile Char.isDigit)

def readSign : List Char → Bool × List Char
  | '-' :: s => (true,s)
  | s => (false,s)

def readWhole : List Char → Option (Nat × List Char)
  | '0' :: s => some (0,s)
  | s => if s.takeWhile Char.isDigit = [] then none
    else some (Nat.ofDigitChars 10 (s.takeWhile Char.isDigit) 0,s.dropWhile Char.isDigit)

def readFraction : List Char → Option (List (Fin 10) × List Char)
  | '.' :: s => if (readDigits s).1 = [] then none else some (readDigits s)
  | s => some ([],s)

def readExponentSign : List Char → Option Bool × List Char
  | '+' :: s => (some false,s)
  | '-' :: s => (some true,s)
  | s => (none,s)

def readExponent : List Char → Option (Option JsonExponent × List Char)
  | c :: s =>
    if c = 'e' ∨ c = 'E' then
      let (sign,s) := readExponentSign s
      match readDigits s with
      | (first :: rest,s) => some (some ⟨c = 'E',sign,first,rest⟩,s)
      | ([],_) => none
    else some (none,c :: s)
  | [] => some (none,[])

def readNumber (s : List Char) : Option (JsonNumber × List Char) := do
  let (negative,s) := readSign s
  let (whole,s) ← readWhole s
  let (fraction,s) ← readFraction s
  let (exponent,s) ← readExponent s
  return (⟨negative,whole,fraction,exponent⟩,s)

def hexDigit? (c : Char) : Option Nat :=
  if c.isDigit then some (c.toNat - 48)
  else if 'a' ≤ c ∧ c ≤ 'f' then some (c.toNat - 87)
  else if 'A' ≤ c ∧ c ≤ 'F' then some (c.toNat - 55)
  else none

def hexUnit? (a b c d : Char) : Option UInt16 := do
  return UInt16.ofNat (16 * (16 * (16 * (← hexDigit? a) + (← hexDigit? b)) + (← hexDigit? c)) + (← hexDigit? d))

/-- The unit of an escape of one letter -/
def escape? (c : Char) : Option UInt16 :=
  if c = '"' ∨ c = '\\' ∨ c = '/' then some (UInt16.ofNat c.toNat)
  else if c = 'b' then some 8
  else if c = 'f' then some 12
  else if c = 'n' then some 10
  else if c = 'r' then some 13
  else if c = 't' then some 9
  else none

/-- A string after its opening quote -/
def readUnits : List Char → Option (List UInt16 × List Char)
  | [] => none
  | '"' :: s => some ([],s)
  | '\\' :: 'u' :: a :: b :: c :: d :: s => do
    let u ← hexUnit? a b c d
    let (us,s) ← readUnits s
    return (u :: us,s)
  | '\\' :: e :: s => do
    let u ← escape? e
    let (us,s) ← readUnits s
    return (u :: us,s)
  | c :: s => if c.toNat < 32 then none else do
    let (us,s) ← readUnits s
    return (Utf16.encodeChar c ++ us,s)

section
variable {α : Type} (item : List Char → Option (α × List Char)) (close : Char)

/-- What follows an item of a listing -/
def readTail : Nat → List Char → Option (List α × List Char)
  | 0, _ => none
  | k+1, s => match skip s with
    | [] => none
    | c :: s =>
      if c = close then some ([],s)
      else if c = ',' then do
        let (x,s) ← item (skip s)
        let (xs,s) ← readTail k s
        return (x :: xs,s)
      else none

/-- A listing after its opening bracket -/
def readListing (k : Nat) (s : List Char) : Option (List α × List Char) :=
  match skip s with
  | [] => none
  | c :: s =>
    if c = close then some ([],s)
    else do
      let (x,s) ← item (c :: s)
      let (xs,s) ← readTail item close k s
      return (x :: xs,s)

def readMember : List Char → Option ((List UInt16 × α) × List Char)
  | '"' :: s => do
    let (key,s) ← readUnits s
    match skip s with
    | ':' :: s => do
      let (x,s) ← item (skip s)
      return ((key,x),s)
    | _ => none
  | _ => none

end

/-- A value at the beginning of a text, which is longer than no value in it -/
def readValue : Nat → List Char → Option (JsonDoc × List Char)
  | 0, _ => none
  | k+1, s => match s with
    | 'n' :: 'u' :: 'l' :: 'l' :: s => some (.null,s)
    | 't' :: 'r' :: 'u' :: 'e' :: s => some (.bool true,s)
    | 'f' :: 'a' :: 'l' :: 's' :: 'e' :: s => some (.bool false,s)
    | '"' :: s => (readUnits s).map fun (u,s) => (.str u,s)
    | '[' :: s => (readListing (readValue k) ']' k s).map fun (xs,s) => (.arr xs,s)
    | '{' :: s => (readListing (readMember (readValue k)) '}' k s).map fun (es,s) => (.obj es,s)
    | s => (readNumber s).map fun (n,s) => (.num n,s)

/-- The first value of a text, and what follows it -/
def readFirst (s : List Char) : Option (JsonDoc × List Char) := readValue (s.length+1) (skip s)

/-- A text that is one value -/
def read (s : List Char) : Option JsonDoc := do
  let (d,r) ← readFirst s
  if skip r = [] then some d else none

end JsonDoc
end ExecutionFinality
