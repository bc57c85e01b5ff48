import ConceptSync.Number.Decimal
import ConceptSync.Record.Timestamp
import ConceptSync.Toml.Datum

set_option autoImplicit false
set_option relaxedAutoImplicit false

/-!
Texts, numbers, truth values and times as TOML writes them. Readers of texts take their part from
the front of the characters and give the rest.
-/

namespace ConceptSync

namespace Toml

def isBlank (c : Char) : Bool := c = ' ' || c = '\t'

def skipBlanks (cs : List Char) : List Char := cs.dropWhile isBlank

/-- What may stand unescaped in texts and comments: anything but control characters, the tab
excepted. -/
def isPlain (c : Char) : Bool := c = '\t' || (32 ≤ c.toNat && c.toNat ≠ 127)

def isHexDigit (c : Char) : Bool :=
  c.isDigit || ('a' ≤ c && c ≤ 'f') || ('A' ≤ c && c ≤ 'F')

def digitValue (c : Char) : Nat :=
  if c.isDigit then c.toNat - '0'.toNat
  else if 'a' ≤ c then c.toNat - 'a'.toNat + 10
  else c.toNat - 'A'.toNat + 10

def valueOf (base : Nat) (digits : List Char) : Nat :=
  digits.foldl (fun n c => n * base + digitValue c) 0

/-- A character given by the number of digits of its code. Surrogates are no characters. -/
def readCode? (width : Nat) (cs : List Char) : Option (Char × List Char) :=
  let digits := cs.take width
  let code := valueOf 16 digits
  if digits.length = width ∧ digits.all isHexDigit ∧ code.isValidChar then
    some (Char.ofNat code, cs.drop width)
  else none

def readEscape? : List Char → Option (Char × List Char)
  | 'b' :: rest => some ('\x08', rest)
  | 't' :: rest => some ('\t', rest)
  | 'n' :: rest => some ('\n', rest)
  | 'f' :: rest => some ('\x0c', rest)
  | 'r' :: rest => some ('\r', rest)
  | '"' :: rest => some ('"', rest)
  | '\\' :: rest => some ('\\', rest)
  | 'u' :: rest => readCode? 4 rest
  | 'U' :: rest => readCode? 8 rest
  | _ => none

def readNewline? : List Char → Option (List Char)
  | '\n' :: rest => some rest
  | '\r' :: '\n' :: rest => some rest
  | _ => none

def skipLines : Nat → List Char → List Char
  | 0, cs => cs
  | fuel + 1, cs =>
    let cs := skipBlanks cs
    match readNewline? cs with
    | some rest => skipLines fuel rest
    | none => cs

/-- The characters of a text on one line up to its closing quote, most recent first. -/
def readLineChars : Nat → Char → List Char → List Char → Option (List Char × List Char)
  | 0, _, _, _ => none
  | _ + 1, _, _, [] => none
  | fuel + 1, quote, done, c :: rest =>
    if c = quote then some (done, rest)
    -- only double quotes know escapes
    else if c = '\\' ∧ quote = '"' then do
      let (e, rest) ← readEscape? rest
      readLineChars fuel quote (e :: done) rest
    else if isPlain c then readLineChars fuel quote (c :: done) rest
    else none

/-- Drop a backslash that ends a line, with all blanks and line ends after it. -/
def continuation? (cs : List Char) : Option (List Char) :=
  (readNewline? (skipBlanks cs)).map fun rest => skipLines rest.length rest

/-- The characters of a text over several lines up to its three closing quotes, most recent
first. -/
def readBlockChars : Nat → Char → List Char → List Char → Option (List Char × List Char)
  | 0, _, _, _ => none
  | _ + 1, _, _, [] => none
  | fuel + 1, quote, done, c :: rest =>
    if c = quote then
      -- of up to five quotes the last three close the text
      let quotes := ((c :: rest).take 5).takeWhile (· = quote)
      if 3 ≤ quotes.length then
        some (quotes.drop 3 ++ done, (c :: rest).drop quotes.length)
      else readBlockChars fuel quote (c :: done) rest
    else if c = '\\' ∧ quote = '"' then
      match continuation? rest with
      | some rest => readBlockChars fuel quote done rest
      | none => do
        let (e, rest) ← readEscape? rest
        readBlockChars fuel quote (e :: done) rest
    else
      match readNewline? (c :: rest) with
      | some rest => readBlockChars fuel quote ('\n' :: done) rest
      | none => if isPlain c then readBlockChars fuel quote (c :: done) rest else none

def readLineText? (quote : Char) (cs : List Char) : Option (String × List Char) :=
  (readLineChars (cs.length + 1) quote [] cs).map fun (chars, rest) =>
    (String.ofList chars.reverse, rest)

/-- A text over several lines after its opening quotes. A line end right after them is dropped. -/
def readBlockText? (quote : Char) (cs : List Char) : Option (String × List Char) :=
  let cs := (readNewline? cs).getD cs
  (readBlockChars (cs.length + 1) quote [] cs).map fun (chars, rest) =>
    (String.ofList chars.reverse, rest)

def readText? (quote : Char) (cs : List Char) : Option (String × List Char) :=
  match cs with
  | a :: b :: rest => if a = quote ∧ b = quote then readBlockText? quote rest
    else readLineText? quote cs
  | _ => readLineText? quote cs

def cutAt (mark : Char) : List Char → List (List Char)
  | [] => [[]]
  | c :: rest =>
    match cutAt mark rest with
    | part :: parts => if c = mark then [] :: part :: parts else (c :: part) :: parts
    | [] => [[c]]

/-- Digits with single underscores between them. -/
def digits? (isDigit : Char → Bool) (cs : List Char) : Option (List Char) :=
  let parts := cutAt '_' cs
  if parts.all fun part => !part.isEmpty && part.all isDigit then some parts.flatten else none

/-- Decimal digits without a leading zero. -/
def wholeDigits? (cs : List Char) : Option (List Char) :=
  (digits? Char.isDigit cs).filter fun ds => ds.length = 1 || ds.head? != some '0'

/-- A sign at the front, and what it applies to. -/
def splitSign : List Char → Bool × List Char
  | '+' :: rest => (false, rest)
  | '-' :: rest => (true, rest)
  | cs => (false, cs)

def unbounded? (cs : List Char) : Option Int :=
  match cs with
  | '0' :: 'x' :: rest => (digits? isHexDigit rest).map fun ds => (valueOf 16 ds : Int)
  | '0' :: 'o' :: rest =>
    (digits? (fun c => '0' ≤ c && c ≤ '7') rest).map fun ds => (valueOf 8 ds : Int)
  | '0' :: 'b' :: rest =>
    (digits? (fun c => c = '0' || c = '1') rest).map fun ds => (valueOf 2 ds : Int)
  | cs =>
    let (negative, rest) := splitSign cs
    (wholeDigits? rest).map fun ds =>
      if negative then -(valueOf 10 ds : Int) else (valueOf 10 ds : Int)

def integer? (cs : List Char) : Option Int :=
  (unbounded? cs).filter fun n => decide (-0x8000000000000000 ≤ n ∧ n < 0x8000000000000000)

def exponent? (cs : List Char) : Option Int :=
  let (negative, rest) := splitSign cs
  (digits? Char.isDigit rest).map fun ds =>
    if negative then -(valueOf 10 ds : Int) else (valueOf 10 ds : Int)

/-- The digits of a fraction and the exponent after them, which is zero when none is written. -/
def fraction? (cs : List Char) : Option (List Char × Int) :=
  let isMark (c : Char) : Bool := c = 'e' || c = 'E'
  let written := cs.takeWhile fun c => !isMark c
  (digits? Char.isDigit written).bind fun ds =>
    match cs.drop written.length with
    | [] => some (ds, 0)
    | _ :: rest => (exponent? rest).map fun e => (ds, e)

/-- A floating point number without sign: a whole number with a fraction, an exponent or both. -/
def numeral? (cs : List Char) : Option Decimal :=
  let whole := cs.takeWhile fun c => c.isDigit || c = '_'
  (wholeDigits? whole).bind fun ds =>
    match cs.drop whole.length with
    | '.' :: rest =>
      (fraction? rest).map fun (fs, e) => ⟨valueOf 10 (ds ++ fs), e - fs.length⟩
    | 'e' :: rest => (exponent? rest).map fun e => ⟨valueOf 10 ds, e⟩
    | 'E' :: rest => (exponent? rest).map fun e => ⟨valueOf 10 ds, e⟩
    | _ => none

/-- Whether a floating point number is written. Positive infinity has its own word, and digits
must not stand for it; negative numbers may be of any size. -/
def isFloat (cs : List Char) : Bool :=
  let (negative, rest) := splitSign cs
  rest = "inf".toList || rest = "nan".toList ||
    match numeral? rest with
    | some d => negative || !d.overflows
    | none => false

def fixed? (width : Nat) (cs : List Char) : Option Nat :=
  if cs.length = width ∧ cs.all Char.isDigit then some (valueOf 10 cs) else none

def isDate (cs : List Char) : Bool :=
  match cutAt '-' cs with
  | [year, month, day] =>
    match fixed? 4 year, fixed? 2 month, fixed? 2 day with
    | some y, some m, some d =>
      decide (1 ≤ m ∧ m ≤ 12 ∧ 1 ≤ d ∧ d ≤ Timestamp.daysInMonth y m)
    | _, _, _ => false
  | _ => false

/-- Whether seconds are written, with or without a fraction. -/
def isSeconds (cs : List Char) : Bool :=
  match fixed? 2 (cs.take 2) with
  | some s => decide (s ≤ 60) &&
    match cs.drop 2 with
    | [] => true
    | '.' :: fraction => !fraction.isEmpty && fraction.all Char.isDigit
    | _ => false
  | none => false

def isHourMinute (hour minute : List Char) : Bool :=
  match fixed? 2 hour, fixed? 2 minute with
  | some h, some m => decide (h ≤ 23 ∧ m ≤ 59)
  | _, _ => false

def isClock (cs : List Char) : Bool :=
  match cutAt ':' cs with
  | [hour, minute, second] => isHourMinute hour minute && isSeconds second
  | _ => false

def isOffset (cs : List Char) : Bool :=
  match cutAt ':' cs with
  | [hour, minute] => isHourMinute hour minute
  | _ => false

def isZonedClock (cs : List Char) : Bool :=
  let clock := cs.takeWhile fun c => c.isDigit || c = ':' || c = '.'
  isClock clock &&
    match cs.drop clock.length with
    | [] => true
    | [c] => c = 'Z' || c = 'z'
    | c :: rest => (c = '+' || c = '-') && isOffset rest

def isTime (cs : List Char) : Bool :=
  isDate cs || isClock cs ||
    (isDate (cs.take 10) &&
      match cs.drop 10 with
      | c :: clock => (c = 'T' || c = 't' || c = ' ') && isZonedClock clock
      | [] => false)

def isScalarChar (c : Char) : Bool :=
  c.isAlphanum || c = '_' || c = '+' || c = '-' || c = '.' || c = ':'

/-- The characters of one scalar at the front. A date and a time of day may have one blank between
them. -/
def splitScalar (cs : List Char) : List Char × List Char :=
  let first := cs.takeWhile isScalarChar
  match cs.drop first.length with
  | ' ' :: c :: rest =>
    if isDate first ∧ c.isDigit then
      let second := (c :: rest).takeWhile isScalarChar
      (first ++ ' ' :: second, (c :: rest).drop second.length)
    else (first, ' ' :: c :: rest)
  | rest => (first, rest)

def scalar? (cs : List Char) : Option Datum :=
  if cs = "true".toList then some (.bool true)
  else if cs = "false".toList then some (.bool false)
  else
    match integer? cs with
    | some n => some (.integer n)
    | none =>
      if isFloat cs then some (.float (String.ofList cs))
      else if isTime cs then some (.time (String.ofList cs))
      else none

end Toml

end ConceptSync
