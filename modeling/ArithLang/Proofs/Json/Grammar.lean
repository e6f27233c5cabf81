/-
The grammar of JSON: which characters stand for which value. Numbers are kept as their texts and the members of an object
in their order, names that occur twice included. A `\u` escape is one half of a pair or a character by itself; halves
without their other half stand for nothing.
-/
import ArithLang.Json.Quoted

namespace ArithLang.Json

inductive Value where
  | null
  | bool (b : Bool)
  | number (text : String)
  | string (text : String)
  | array (items : List Value)
  | object (members : List (String × Value))

def isSpace (c : Char) : Bool := c = ' ' || c = '\t' || c = '\n' || c = '\r'

/-! ## Numbers and names -/

/-- Digits without a zero in front of others. -/
def isInteger (cs : List Char) : Bool := !cs.isEmpty && cs.all Char.isDigit && (cs.length = 1 || cs.head? ≠ some '0')

/-- A point and digits, or nothing. -/
def isFraction : List Char → Bool
  | [] => true
  | c :: cs => c = '.' && !cs.isEmpty && cs.all Char.isDigit

/-- A letter `e`, a sign if there is one, and digits; or nothing. -/
def isExponent : List Char → Bool
  | [] => true
  | c :: cs =>
    let digits := if cs.head? = some '+' || cs.head? = some '-' then cs.tail else cs
    (c = 'e' || c = 'E') && !digits.isEmpty && digits.all Char.isDigit

def isBeforeExponent (c : Char) : Bool := c ≠ 'e' && c ≠ 'E'

def isNumber (cs : List Char) : Bool :=
  let unsigned := if cs.head? = some '-' then cs.tail else cs
  let mantissa := unsigned.takeWhile isBeforeExponent
  isInteger (mantissa.takeWhile (· ≠ '.')) && isFraction (mantissa.dropWhile (· ≠ '.')) &&
    isExponent (unsigned.dropWhile isBeforeExponent)

/-- The values that are written as one word. -/
def scalar? (word : List Char) : Option Value :=
  if word = ['n', 'u', 'l', 'l'] then some .null
  else if word = ['t', 'r', 'u', 'e'] then some (.bool true)
  else if word = ['f', 'a', 'l', 's', 'e'] then some (.bool false)
  else if isNumber word then some (.number (String.ofList word))
  else none

/-! ## Strings -/

/-- The character after a backslash, for the escapes of two characters. -/
def shortEscape? : Char → Option Char
  | '"' => some '"'
  | '\\' => some '\\'
  | '/' => some '/'
  | 'b' => some '\x08'
  | 'f' => some '\x0c'
  | 'n' => some '\n'
  | 'r' => some '\r'
  | 't' => some '\t'
  | _ => none

def hexDigit? (c : Char) : Option Nat :=
  if c.isDigit then some (c.toNat - '0'.toNat)
  else if 'a' ≤ c && c ≤ 'f' then some (c.toNat - 'a'.toNat + 10)
  else if 'A' ≤ c && c ≤ 'F' then some (c.toNat - 'A'.toNat + 10)
  else none

/-- The number that four hexadecimal digits stand for. -/
def unit? (digits : List Char) : Option Nat :=
  if digits.length = 4 then (digits.mapM hexDigit?).map (List.foldl (fun n d => 16 * n + d) 0) else none

def isUpperHalf (n : Nat) : Bool := 0xd800 ≤ n && n < 0xdc00

def isLowerHalf (n : Nat) : Bool := 0xdc00 ≤ n && n < 0xe000

/-- The character that an upper and a lower half stand for. -/
def joinHalves (n m : Nat) : Char := Char.ofNat (0x10000 + 0x400 * (n - 0xd800) + (m - 0xdc00))

/-- The characters stand for the character `c` inside a string. -/
inductive EscapedChar : List Char → Char → Prop
  | plain {c : Char} (control : 0x20 ≤ c.toNat) (quote : c ≠ '"') (backslash : c ≠ '\\') : EscapedChar [c] c
  | short {letter c : Char} (h : shortEscape? letter = some c) : EscapedChar ['\\', letter] c
  | unit {digits : List Char} {n : Nat} (h : unit? digits = some n) (upper : isUpperHalf n = false)
      (lower : isLowerHalf n = false) : EscapedChar ('\\' :: 'u' :: digits) (Char.ofNat n)
  | pair {digits digits' : List Char} {n m : Nat} (h : unit? digits = some n) (h' : unit? digits' = some m)
      (upper : isUpperHalf n) (lower : isLowerHalf m) :
      EscapedChar ('\\' :: 'u' :: digits ++ '\\' :: 'u' :: digits') (joinHalves n m)

/-- The characters stand for `text` between the quotes of a string. -/
inductive EscapedText : List Char → List Char → Prop
  | nil : EscapedText [] []
  | cons {cs rest : List Char} {c : Char} {text : List Char} (h : EscapedChar cs c) (hrest : EscapedText rest text) :
      EscapedText (cs ++ rest) (c :: text)

inductive Quoted : List Char → String → Prop
  | mk {cs : List Char} {text : String} (h : EscapedText cs text.toList) : Quoted ('"' :: cs ++ ['"']) text

/-! ## Values -/

/-- Something as `R` writes it, with blanks around. -/
inductive Spaced {α : Type} (R : List Char → α → Prop) : List Char → α → Prop
  | mk {before cs after : List Char} {a : α} (hbefore : before.all isSpace) (h : R cs a) (hafter : after.all isSpace) :
      Spaced R (before ++ cs ++ after) a

/-- A name, a colon and a value. -/
inductive Member {α : Type} (R : List Char → α → Prop) : List Char → String × α → Prop
  | mk {name cs : List Char} {text : String} {a : α} (hname : Spaced Quoted name text) (h : Spaced R cs a) :
      Member R (name ++ ':' :: cs) (text, a)

/-- One thing or more as `R` writes them, with commas between them. -/
inductive Listed {α : Type} (R : List Char → α → Prop) : List Char → List α → Prop
  | one {cs : List Char} {a : α} (h : R cs a) : Listed R cs [a]
  | more {cs rest : List Char} {a : α} {as : List α} (h : R cs a) (hrest : Listed R rest as) :
      Listed R (cs ++ ',' :: rest) (a :: as)

/-- The characters stand for the value, without blanks around it. -/
inductive Writes : List Char → Value → Prop
  | scalar {word : List Char} {v : Value} (h : scalar? word = some v) : Writes word v
  | string {cs : List Char} {text : String} (h : Quoted cs text) : Writes cs (.string text)
  | emptyArray {space : List Char} (h : space.all isSpace) : Writes ('[' :: space ++ [']']) (.array [])
  | array {cs : List Char} {items : List Value} (h : Listed (Spaced Writes) cs items) :
      Writes ('[' :: cs ++ [']']) (.array items)
  | emptyObject {space : List Char} (h : space.all isSpace) : Writes ('\x7b' :: space ++ ['\x7d']) (.object [])
  | object {cs : List Char} {members : List (String × Value)} (h : Listed (Member Writes) cs members) :
      Writes ('\x7b' :: cs ++ ['\x7d']) (.object members)

/-- The text is a JSON document of the value. -/
def IsDocument (text : String) (v : Value) : Prop := Spaced Writes text.toList v

end ArithLang.Json
