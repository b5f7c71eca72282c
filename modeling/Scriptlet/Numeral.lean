/-!
# Integer literals

`0x`, `0o` and `0b` announce radix sixteen, eight and two, a leading zero with something
behind it announces radix eight, and every other literal is decimal.  An underscore may
stand between two digits or directly behind an announcement.  No sign opens the digits,
but one behind that underscore is read: `0x_-5` is minus five.  Values are those of
signed 64-bit words.
-/

namespace Scriptlet.Numeral

/-- A literal cut at its radix announcement. -/
structure Parts where
  radix : Nat
  /-- Whether an announcement was cut off. -/
  announced : Bool
  /-- What is left: digits, separators, and whatever else was written. -/
  digits : List Char
deriving DecidableEq, Repr

def split : List Char → Parts
  | '0' :: 'x' :: digits => ⟨16, true, digits⟩
  | '0' :: 'X' :: digits => ⟨16, true, digits⟩
  | '0' :: 'o' :: digits => ⟨8, true, digits⟩
  | '0' :: 'O' :: digits => ⟨8, true, digits⟩
  | '0' :: 'b' :: digits => ⟨2, true, digits⟩
  | '0' :: 'B' :: digits => ⟨2, true, digits⟩
  | '0' :: c :: digits => ⟨8, true, c :: digits⟩
  | digits => ⟨10, false, digits⟩

def isSign (c : Char) : Bool := c = '+' || c = '-'

/-- Every underscore has a character other than an underscore behind it. -/
def underscoresFollowed : List Char → Bool
  | [] => true
  | ['_'] => false
  | '_' :: '_' :: _ => false
  | _ :: cs => underscoresFollowed cs

/-- The first character is admissible: no sign, and an underscore only behind a
radix announcement. -/
def opensWell (parts : Parts) : Bool :=
  match parts.digits with
  | [] => false
  | c :: _ => !isSign c && (parts.announced || c != '_')

/-- The value of a digit in radix `radix`; letters of either case count from ten. -/
def digit? (radix : Nat) (c : Char) : Option Nat :=
  let value? :=
    if c.isDigit then some (c.toNat - '0'.toNat)
    else if c.isLower then some (c.toNat - 'a'.toNat + 10)
    else if c.isUpper then some (c.toNat - 'A'.toNat + 10)
    else none
  value?.filter (· < radix)

/-- The positional value of `digits` behind a number whose value is `acc`. -/
def positional? (radix acc : Nat) : List Char → Option Nat
  | [] => some acc
  | c :: cs => do positional? radix (acc * radix + (← digit? radix c)) cs

/-- The value of a nonempty digit string. -/
def magnitude? (radix : Nat) : List Char → Option Nat
  | [] => none
  | c :: cs => positional? radix 0 (c :: cs)

/-- The value of a digit string with at most one sign in front. -/
def signed? (radix : Nat) : List Char → Option Int
  | '+' :: cs => (magnitude? radix cs).map fun n => (n : Int)
  | '-' :: cs => (magnitude? radix cs).map fun n => -(n : Int)
  | cs => (magnitude? radix cs).map fun n => (n : Int)

def least : Int := -9223372036854775808

def greatest : Int := 9223372036854775807

/-- The value of an integer literal, or nothing if the text is no literal or its
value needs more than 64 bits. -/
def value? (literal : String) : Option Int :=
  let parts := split literal.toList
  if opensWell parts && underscoresFollowed parts.digits then
    (signed? parts.radix (parts.digits.filter (· != '_'))).filter fun n =>
      least ≤ n && n ≤ greatest
  else
    none

end Scriptlet.Numeral
