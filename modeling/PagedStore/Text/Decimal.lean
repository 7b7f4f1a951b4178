/-! Decimal numerals of ASCII digits, with an optional sign. -/

namespace PagedStore.Decimal

def digit? (char : Char) : Option Nat :=
  if '0' ≤ char ∧ char ≤ '9' then some (char.toNat - '0'.toNat) else none

def digitsFrom? (value : Nat) : List Char → Option Nat
  | [] => some value
  | char :: rest => do digitsFrom? (10 * value + (← digit? char)) rest

/-- One digit or more. -/
def digits? : List Char → Option Nat
  | [] => none
  | chars => digitsFrom? 0 chars

/-- Digits after an optional plus sign. -/
def natural? (text : String) : Option Nat :=
  match text.toList with
  | '+' :: rest => digits? rest
  | chars => digits? chars

/-- Digits after an optional plus or minus sign. -/
def integer? (text : String) : Option Int :=
  match text.toList with
  | '+' :: rest => (digits? rest).map Int.ofNat
  | '-' :: rest => (digits? rest).map fun value => -Int.ofNat value
  | chars => (digits? chars).map Int.ofNat

end PagedStore.Decimal
