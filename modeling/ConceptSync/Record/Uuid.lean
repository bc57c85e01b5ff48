set_option autoImplicit false
set_option relaxedAutoImplicit false

/-!
Identifiers of 128 bits, written as 32 hexadecimal digits in groups of 8, 4, 4, 4 and 12.
-/

namespace ConceptSync

/-- An identifier by its hexadecimal digits, most significant first. -/
structure Uuid where
  digits : List (Fin 16)
  length_eq : digits.length = 32
deriving DecidableEq, Repr

namespace Uuid

def digitChar (d : Fin 16) : Char := Nat.digitChar d.val

def charDigit? (c : Char) : Option (Fin 16) :=
  if '0' ≤ c ∧ c ≤ '9' then some (Fin.ofNat 16 (c.toNat - '0'.toNat))
  else if 'a' ≤ c ∧ c ≤ 'f' then some (Fin.ofNat 16 (c.toNat - 'a'.toNat + 10))
  else if 'A' ≤ c ∧ c ≤ 'F' then some (Fin.ofNat 16 (c.toNat - 'A'.toNat + 10))
  else none

/-- Digits cut into groups of the given sizes. -/
def groups (sizes : List Nat) (digits : List Char) : List (List Char) :=
  match sizes with
  | [] => []
  | n :: rest => digits.take n :: groups rest (digits.drop n)

def groupSizes : List Nat := [8, 4, 4, 4, 12]

/-- The hyphenated form in lower case. -/
def text (id : Uuid) : String :=
  String.ofList (['-'].intercalate (groups groupSizes (id.digits.map digitChar)))

def ofChars? (cs : List Char) : Option Uuid :=
  match cs.mapM charDigit? with
  | some digits => if h : digits.length = 32 then some ⟨digits, h⟩ else none
  | none => none

def unhyphenated? (cs : List Char) : Option (List Char) :=
  let hyphens := [8, 13, 18, 23]
  if cs.length = 36 ∧ hyphens.all fun i => cs[i]? == some '-' then
    some ((cs.zipIdx.filter fun e => decide (e.2 ∉ hyphens)).map Prod.fst)
  else none

/-- The hyphenated form inside a text: bare, in braces or after its scheme in letters of either
case. -/
def unwrapped (cs : List Char) : List Char :=
  let scheme := "urn:uuid:".toList
  if cs.length = 38 ∧ cs.head? = some '\x7b' ∧ cs.getLast? = some '\x7d' then
    (cs.drop 1).dropLast
  else if cs.length = 45 ∧ (cs.take scheme.length).map Char.toLower = scheme then
    cs.drop scheme.length
  else cs

/-- Read an identifier in any of its forms: plain digits, or hyphenated. -/
def parse? (s : String) : Option Uuid :=
  let cs := s.toList
  if cs.length = 32 then ofChars? cs else (unhyphenated? (unwrapped cs)).bind ofChars?

/-- The last `n` hexadecimal digits of a number. -/
def hexDigits : Nat → Nat → List (Fin 16)
  | 0, _ => []
  | n + 1, value => hexDigits n (value / 16) ++ [Fin.ofNat 16 value]

theorem length_hexDigits (n value : Nat) : (hexDigits n value).length = n := by
  induction n generalizing value with
  | zero => rfl
  | succ n ih => simp [hexDigits, ih]

/-- Which kind of thing an issued identifier names. -/
inductive Family where
  | record
  | run
  | item
deriving DecidableEq, Repr

def Family.lead : Family → Nat
  | record => 0x7d1e52c04b9a4e01
  | run => 0x7d1e52c04b9a4e02
  | item => 0x7d1e52c04b9a4e03

/-- The identifier issued as number `serial` of a family. -/
def issue (family : Family) (serial : Nat) : Uuid :=
  ⟨hexDigits 16 family.lead ++ hexDigits 16 (0x9c00000000000000 + serial), by
    simp [length_hexDigits]⟩

example : (issue .run 1).text = "7d1e52c0-4b9a-4e02-9c00-000000000001" := by decide +kernel
example : (parse? "URN:uuid:7D1E52C0-4B9A-4E02-9C00-000000000001") = some (issue .run 1) := by
  decide +kernel

end Uuid

end ConceptSync
