import ConceptSync.Number.Decimal
import ConceptSync.Value

set_option autoImplicit false
set_option relaxedAutoImplicit false

/-!
Documents read from text. Nothing is read from a text that is no document: one with a misplaced
character, a number out of range, an unpaired surrogate, more than 127 nested brackets or anything
but blanks after its end. Of fields with one name the last counts. Each reader takes its part from
the front of the characters and gives the rest. How the parts of a numeral make a number is left
open until a whole text is read.
-/

namespace ConceptSync

namespace Json

def isBlank (c : Char) : Bool := c = ' ' || c = '\n' || c = '\t' || c = '\r'

def skipBlanks (cs : List Char) : List Char := cs.dropWhile isBlank

def digitValue (c : Char) : Nat := c.toNat - '0'.toNat

def hexValue? (c : Char) : Option Nat :=
  if c.isDigit then some (digitValue c)
  else if 'a' ≤ c ∧ c ≤ 'f' then some (c.toNat - 'a'.toNat + 10)
  else if 'A' ≤ c ∧ c ≤ 'F' then some (c.toNat - 'A'.toNat + 10)
  else none

/-- A code unit of four hexadecimal digits. -/
def readUnit : List Char → Option (Nat × List Char)
  | a :: b :: c :: d :: rest => do
    let a ← hexValue? a
    let b ← hexValue? b
    let c ← hexValue? c
    let d ← hexValue? d
    some (((a * 16 + b) * 16 + c) * 16 + d, rest)
  | _ => none

/-- A character written by its code units: one, or a surrogate pair. -/
def readCodePoint (cs : List Char) : Option (Char × List Char) := do
  let (u, rest) ← readUnit cs
  if 0xDC00 ≤ u ∧ u ≤ 0xDFFF then none
  else if 0xD800 ≤ u ∧ u ≤ 0xDBFF then
    match rest with
    | '\\' :: 'u' :: rest =>
      let (v, rest) ← readUnit rest
      if 0xDC00 ≤ v ∧ v ≤ 0xDFFF then
        some (Char.ofNat (0x10000 + (u - 0xD800) * 0x400 + (v - 0xDC00)), rest)
      else none
    | _ => none
  else some (Char.ofNat u, rest)

def readEscape : List Char → Option (Char × List Char)
  | '"' :: rest => some ('"', rest)
  | '\\' :: rest => some ('\\', rest)
  | '/' :: rest => some ('/', rest)
  | 'b' :: rest => some ('\x08', rest)
  | 'f' :: rest => some ('\x0c', rest)
  | 'n' :: rest => some ('\n', rest)
  | 'r' :: rest => some ('\r', rest)
  | 't' :: rest => some ('\t', rest)
  | 'u' :: rest => readCodePoint rest
  | _ => none

/-- The characters up to the closing quote, most recent first. -/
def readChars : Nat → List Char → List Char → Option (List Char × List Char)
  | 0, _, _ => none
  | _ + 1, _, [] => none
  | fuel + 1, done, c :: rest =>
    if c = '"' then some (done, rest)
    else if c = '\\' then do
      let (e, rest) ← readEscape rest
      readChars fuel (e :: done) rest
    else if c.toNat < 32 then none
    else readChars fuel (c :: done) rest

def readText (cs : List Char) : Option (String × List Char) := do
  let (chars, rest) ← readChars (cs.length + 1) [] cs
  some (String.ofList chars.reverse, rest)

/-- Append digits to a significand as long as it fits in 64 bits. Gives the digits left over. -/
def accumulate : Nat → List Char → Nat × List Char
  | significand, [] => (significand, [])
  | significand, c :: rest =>
    let next := significand * 10 + digitValue c
    if next < 0x10000000000000000 then accumulate next rest else (significand, c :: rest)

/-- The digits after a point, none without a point. A point needs a digit. -/
def readFraction : List Char → Option (List Char × List Char)
  | '.' :: rest =>
    let digits := rest.takeWhile Char.isDigit
    if digits.isEmpty then none else some (digits, rest.dropWhile Char.isDigit)
  | cs => some ([], cs)

/-- The sign and digits after an exponent mark. -/
def readExponentDigits (negative : Bool) (cs : List Char) : Option (Option Int × List Char) :=
  let digits := cs.takeWhile Char.isDigit
  if digits.isEmpty then none
  else
    let n := digits.foldl (fun n c => n * 10 + digitValue c) 0
    some (some (if negative then -(n : Int) else n), cs.dropWhile Char.isDigit)

/-- An exponent, if there is one. -/
def readExponent : List Char → Option (Option Int × List Char)
  | c :: rest =>
    if c = 'e' ∨ c = 'E' then
      match rest with
      | '+' :: rest => readExponentDigits false rest
      | '-' :: rest => readExponentDigits true rest
      | rest => readExponentDigits false rest
    else some (none, c :: rest)
  | [] => some (none, [])

/-- How a number is made of its sign, its digits before and behind the point, and its exponent. -/
abbrev Assembly := Bool → List Char → List Char → Option Int → Option Number

/-- The number written by its parts. An integer that fits in 64 bits is exact; any other number is
made of the leading digits that fit, scaled by a power of ten. -/
def assembleNumber : Assembly := fun negative whole fraction exponent =>
  let (significand, dropped) := accumulate 0 whole
  let signed (x : Double) : Number := .float (if negative then x.neg else x)
  if dropped.isEmpty && fraction.isEmpty && exponent.isNone then
    if negative then
      -- minus zero and what is below the 64 bits are floating point numbers
      if 0 < significand ∧ significand ≤ 0x8000000000000000 then some (.int (-(significand : Int)))
      else some (signed (.ofInt significand))
    else some (.int significand)
  else
    let (significand, ignored) := accumulate significand fraction
    -- digits dropped before the point raise the power of ten, those read after it lower it
    let shift : Int := (dropped.length : Int) - ((fraction.length : Int) - ignored.length)
    (Decimal.toDouble? ⟨significand, shift + exponent.getD 0⟩).map signed

section

variable (assemble : Assembly)

def readUnsigned (negative : Bool) (cs : List Char) : Option (Value × List Char) := do
  let whole := cs.takeWhile Char.isDigit
  if whole.isEmpty || (whole.length > 1 && whole.head? == some '0') then none
  else
    let (fraction, rest) ← readFraction (cs.dropWhile Char.isDigit)
    let (exponent, rest) ← readExponent rest
    let n ← assemble negative whole fraction exponent
    some (.number n, rest)

mutual

/-- A document at a depth of brackets that may still be opened. -/
def readValue : Nat → Nat → List Char → Option (Value × List Char)
  | 0, _, _ => none
  | fuel + 1, depth, cs =>
    match cs with
    | 'n' :: 'u' :: 'l' :: 'l' :: rest => some (.null, rest)
    | 't' :: 'r' :: 'u' :: 'e' :: rest => some (.bool true, rest)
    | 'f' :: 'a' :: 'l' :: 's' :: 'e' :: rest => some (.bool false, rest)
    | '"' :: rest => (readText rest).map fun (s, rest) => (.string s, rest)
    | '-' :: rest => readUnsigned assemble true rest
    | '[' :: rest =>
      if depth = 0 then none
      else match skipBlanks rest with
        | ']' :: rest => some (.array [], rest)
        | rest => (readItems fuel (depth - 1) [] rest).map fun (vs, rest) => (.array vs, rest)
    | '\x7b' :: rest =>
      if depth = 0 then none
      else match skipBlanks rest with
        | '\x7d' :: rest => some (.object [], rest)
        | rest => (readFields fuel (depth - 1) [] rest).map fun (fs, rest) => (.object fs, rest)
    | _ => readUnsigned assemble false cs

def readItems : Nat → Nat → List Value → List Char → Option (List Value × List Char)
  | 0, _, _, _ => none
  | fuel + 1, depth, done, cs => do
    let (v, rest) ← readValue fuel depth (skipBlanks cs)
    match skipBlanks rest with
    | ',' :: rest => readItems fuel depth (v :: done) rest
    | ']' :: rest => some ((v :: done).reverse, rest)
    | _ => none

def readFields : Nat → Nat → Payload → List Char → Option (Payload × List Char)
  | 0, _, _, _ => none
  | fuel + 1, depth, done, cs => do
    match skipBlanks cs with
    | '"' :: rest =>
      let (key, rest) ← readText rest
      match skipBlanks rest with
      | ':' :: rest =>
        let (v, rest) ← readValue fuel depth (skipBlanks rest)
        match skipBlanks rest with
        | ',' :: rest => readFields fuel depth (done.insert key v) rest
        | '\x7d' :: rest => some (done.insert key v, rest)
        | _ => none
      | _ => none
    | _ => none

end

/-- How many brackets may be open at once. -/
def maxDepth : Nat := 127

def readWith? (text : String) : Option Value :=
  let cs := text.toList
  -- of two steps in a row one reads a character, so there is fuel enough
  match readValue assemble (2 * cs.length + 2) maxDepth (skipBlanks cs) with
  | some (v, rest) => if (skipBlanks rest).isEmpty then some v else none
  | none => none

end

def read? (text : String) : Option Value := readWith? assembleNumber text

end Json

end ConceptSync
