/-
The keypad calculator (`calculator.c`).

Keys edit the typed number, or apply the pending operation from left to right.
The state is stored as a text, and restoring it types the stored number again.
Doubles are abstract: their operations, `%.*g` and `strtod` are a parameter
(`Floats`).  A string is the characters before its end.
-/
import Mathlib.Data.List.Basic

namespace Calculator

def digitCount : ℕ := 12

def textChars : ℕ := 14

def saveBytes : ℕ := 64

/-- The doubles of the C library.  `print n` is `%.*g` with precision `n`, and `read`
is `strtod` with the number of characters it took. -/
structure Floats (D : Type*) where
  zero : D
  add : D → D → D
  sub : D → D → D
  mul : D → D → D
  div : D → D → D
  neg : D → D
  isZero : D → Bool
  isFinite : D → Bool
  print : ℕ → D → List Char
  read : List Char → D × ℕ

/-- `enum fplinux_calculator_state`. -/
inductive Mode
  | empty
  | firstNumber
  | operation
  | result
  | error
  deriving DecidableEq, Repr

/-- `enum fplinux_calculator_error`. -/
inductive Error
  | noError
  | divideByZero
  | overflow
  deriving DecidableEq, Repr

/-- `enum fplinux_calculator_input_result`. -/
inductive InputResult
  | ignored
  | changed
  | digitLimit
  deriving DecidableEq, Repr

/-- `struct fplinux_calculator`; no operation is `'\0'`. -/
structure State (D : Type*) where
  entry : List Char
  accumulator : D
  operation : Option Char
  result : Bool
  error : Error
  deriving DecidableEq, Repr

def countDigits (text : List Char) : ℕ := text.countP Char.isDigit

/-- What fits a buffer of so many bytes. -/
def truncate (capacity : ℕ) (text : List Char) : List Char := text.take (capacity - 1)

section

variable {D : Type*} (F : Floats D)

def clear : State D := ⟨[], F.zero, none, false, .noError⟩

def fail (error : Error) : State D := { clear F with error := error }

/-- `round_digits`: results keep 12 significant digits. -/
def roundDigits (value : D) : D :=
  let value := (F.read (truncate 32 (F.print digitCount value))).1
  if F.isZero value then F.zero else value

/-- The switch of `calculate`, none when it divides by zero. -/
def applyOperation (operation : Option Char) (value operand : D) : Option D :=
  if operation = some '+' then some (F.add value operand)
  else if operation = some '-' then some (F.sub value operand)
  else if operation = some '*' then some (F.mul value operand)
  else if F.isZero operand then none
  else some (F.div value operand)

def calculate (c : State D) : Bool × State D :=
  match applyOperation F c.operation c.accumulator (F.read c.entry).1 with
  | none => (false, fail F .divideByZero)
  | some value =>
    let value := roundDigits F value
    if F.isFinite value = false then (false, fail F .overflow)
    else (true, { c with accumulator := value, entry := [] })

/-- A result is cleared before a number is typed. -/
def startNumber (c : State D) : State D := if c.result then clear F else c

def typeDigit (c : State D) (digit : Char) : InputResult × State D :=
  let c := startNumber F c
  if c.entry = ['0'] ∨ c.entry = ['-', '0'] then
    if digit = '0' then (.ignored, c)
    else (.changed, { c with entry := c.entry.dropLast ++ [digit] })
  else if digitCount ≤ countDigits c.entry then (.digitLimit, c)
  else (.changed, { c with entry := c.entry ++ [digit] })

def typeSeparator (c : State D) : InputResult × State D :=
  let c := startNumber F c
  let digits := countDigits c.entry
  if '.' ∈ c.entry then (.ignored, c)
  else if digitCount ≤ digits then (.digitLimit, c)
  else (.changed, { c with entry := c.entry ++ if digits ≠ 0 then ['.'] else ['0', '.'] })

def changeSign (c : State D) : Bool × State D :=
  if c.result then
    if F.isZero c.accumulator then (false, c)
    else (true, { c with accumulator := F.neg c.accumulator })
  else if c.entry.head? = some '-' then (true, { c with entry := c.entry.tail })
  else (true, { c with entry := '-' :: c.entry })

/-- The end of `choose_operation`. -/
def setOperation (c : State D) (operation : Char) : State D :=
  { c with entry := [], result := false, operation := some operation }

def chooseOperation (c : State D) (operation : Char) : Bool × State D :=
  if countDigits c.entry ≠ 0 then
    if c.operation = none then
      (true, setOperation { c with accumulator := roundDigits F (F.read c.entry).1 } operation)
    else
      let calculated := calculate F c
      if calculated.1 = false then (true, calculated.2)
      else (true, setOperation calculated.2 operation)
  else if c.operation = none ∧ c.result = false then
    (true, setOperation { c with accumulator := F.zero } operation)
  else if c.operation = some operation ∧ c.entry = [] then (false, c)
  else (true, setOperation c operation)

def canEvaluate (c : State D) : Bool :=
  c.error = .noError ∧ c.operation ≠ none ∧ countDigits c.entry ≠ 0

def evaluate (c : State D) : Bool × State D :=
  if canEvaluate c = false then (false, c)
  else
    let calculated := calculate F c
    if calculated.1 then (true, { calculated.2 with operation := none, result := true })
    else (true, calculated.2)

def editAccumulator (c : State D) : State D :=
  let c := { c with operation := none }
  if F.isZero c.accumulator then c
  else
    let text := truncate 32 (F.print digitCount c.accumulator)
    if 'e' ∈ text ∨ digitCount < countDigits text ∨ textChars + 1 ≤ text.length then
      { c with result := true }
    else { c with entry := text, accumulator := F.zero }

def deleteCharacter (c : State D) : Bool × State D :=
  if c.result then (true, clear F)
  else if c.entry ≠ [] then (true, { c with entry := c.entry.dropLast })
  else if c.operation = none then (false, c)
  else (true, editAccumulator F c)

def getState (c : State D) : Mode :=
  if c.error ≠ .noError then .error
  else if c.result then .result
  else if c.operation ≠ none then .operation
  else if c.entry ≠ [] then .firstNumber
  else .empty

/-- The keys of `fplinux_calculator_input`. -/
def keys : List Char :=
  ['0', '1', '2', '3', '4', '5', '6', '7', '8', '9', '.', '#', '+', '-', '*', '/', '=', '<', 'C']

/-- How the result of a key that changes something or nothing is told. -/
def told (changed : Bool × State D) : InputResult × State D :=
  (if changed.1 then .changed else .ignored, changed.2)

/-- `fplinux_calculator_input` for a key outside the error state. -/
def press (c : State D) (key : Char) : InputResult × State D :=
  if key.isDigit then typeDigit F c key
  else if key = '.' then typeSeparator F c
  else if key = '#' then told (changeSign F c)
  else if key = '=' then told (evaluate F c)
  else if key = '<' then told (deleteCharacter F c)
  else told (chooseOperation F c key)

def input (c : State D) (key : Char) : InputResult × State D :=
  if key ∉ keys then (.ignored, c)
  else if (c.error ≠ .noError ∧ ¬(key.isDigit ∨ key = '.')) ∨ key = 'C' then
    told (getState c ≠ .empty, clear F)
  else press F (if c.error ≠ .noError then clear F else c) key

/-! ### The display -/

def useSeparator (separator : Char) : List Char → List Char
  | [] => []
  | c :: text => if c = '.' then separator :: text else c :: useSeparator separator text

/-- Leading zeros of the exponent are dropped, but for the last. -/
def dropZeros : List Char → List Char
  | '0' :: c :: text => dropZeros (c :: text)
  | text => text

def shortenExponent : List Char → List Char
  | [] => []
  | 'e' :: '+' :: digits => 'e' :: dropZeros digits
  | 'e' :: '-' :: digits => 'e' :: '-' :: dropZeros digits
  | 'e' :: digits => 'e' :: dropZeros digits
  | c :: text => c :: shortenExponent text

/-- The loop of `fplinux_calculator_format`, from precision `n + 1` down. -/
def fitDigits (value : D) : ℕ → List Char
  | 0 => shortenExponent (truncate 32 (F.print 1 value))
  | n + 1 =>
    let buffer := shortenExponent (truncate 32 (F.print (n + 2) value))
    if buffer.length ≤ textChars then buffer else fitDigits value n

def format (value : D) (separator : Char) (capacity : ℕ) : List Char :=
  let value := if F.isZero value then F.zero else value
  truncate capacity (useSeparator separator (fitDigits F value (digitCount - 1)))

def display (c : State D) (separator : Char) (capacity : ℕ) : List Char :=
  if c.error ≠ .noError then []
  else if c.entry ≠ [] then useSeparator separator (truncate capacity c.entry)
  else if c.result ∨ c.operation ≠ none then format F c.accumulator separator capacity
  else truncate capacity ['0']

/-! ### The stored text -/

/-- The first character of the stored text. -/
def modeChar (c : State D) : Char :=
  if c.error = .divideByZero then 'd'
  else if c.error = .overflow then 'o'
  else if c.result then 'r'
  else 'i'

def save (c : State D) (capacity : ℕ) : List Char :=
  truncate capacity
    ([modeChar c, ' ', c.operation.getD 'n', ' '] ++ F.print 17 c.accumulator ++ ' ' :: c.entry)

/-- The key that types a character of the stored number. -/
def keyOf (c : Char) : Char := if c = '-' then '#' else c

/-- The stored number is typed again. -/
def retype (c : State D) (entry : List Char) : State D :=
  entry.foldl (fun c character => (input F c (keyOf character)).2) c

/-- `fplinux_calculator_restore` from the number on, without its space. -/
def restoreParts (mode operation : Char) (accumulator : D) (entry : List Char) : Bool × State D :=
  if textChars < entry.length ∨ ¬entry.all (· ∈ "0123456789.-".toList) then (false, clear F)
  else if mode = 'i' ∧ operation ∈ "+-*/n".toList then
    let chosen := if operation = 'n' then none else some operation
    let restored := retype F
      { clear F with
        operation := chosen
        accumulator := if chosen ≠ none then accumulator else F.zero } entry
    if restored.entry ≠ entry then (false, clear F) else (true, restored)
  else if mode ∈ "rdo".toList ∧ operation = 'n' ∧ entry = [] then
    (true, { clear F with
      result := mode = 'r'
      error := if mode = 'd' then .divideByZero else if mode = 'o' then .overflow else .noError
      accumulator := if mode = 'r' then accumulator else F.zero })
  else (false, clear F)

def restore (text : List Char) : Bool × State D :=
  if text.length < 5 ∨ text[1]? ≠ some ' ' ∨ text[3]? ≠ some ' ' then (false, clear F)
  else
    let number := F.read (text.drop 4)
    let rest := (text.drop 4).drop number.2
    if number.2 = 0 ∨ (rest ≠ [] ∧ rest.head? ≠ some ' ') ∨ F.isFinite number.1 = false then
      (false, clear F)
    else restoreParts F (text.getD 0 ' ') (text.getD 2 ' ') number.1 rest.tail

/-- The calculator after some keys. -/
def run (c : State D) (pressed : List Char) : State D :=
  pressed.foldl (fun c key => (input F c key).2) c

end

end Calculator
