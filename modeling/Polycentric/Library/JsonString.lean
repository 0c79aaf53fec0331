import Mathlib

/-! Strings as JSON texts. Quotation marks, reverse solidi and control characters are
escaped, the control characters by a letter where there is one. A reader finds the end of a
string by itself. -/
namespace JsonString

def quotationMark : Char := Char.ofNat 0x22

def reverseSolidus : Char := Char.ofNat 0x5c

/-- The control characters that have a letter: backspace, tab, line feed, form feed and
carriage return. -/
def letters : List (Nat × Char) := [(8, 'b'), (9, 't'), (10, 'n'), (12, 'f'), (13, 'r')]

def escape (c : Char) : List Char :=
  if c = quotationMark ∨ c = reverseSolidus then [reverseSolidus, c]
  else if c.toNat < 0x20 then
    match letters.lookup c.toNat with
    | some letter => [reverseSolidus, letter]
    | none => [reverseSolidus, 'u', '0', '0', Nat.digitChar (c.toNat / 16), Nat.digitChar (c.toNat % 16)]
  else [c]

/-- The text between quotation marks. -/
def quoted (text : List Char) : List Char := quotationMark :: (text.flatMap escape ++ [quotationMark])

/-- What the letter after a reverse solidus stands for. -/
def unescape (letter : Char) : Option Char :=
  if letter = quotationMark ∨ letter = reverseSolidus then some letter
  else (letters.find? fun entry => entry.2 = letter).map fun entry => Char.ofNat entry.1

def digit (c : Char) : Option Nat := (List.range 16).find? fun n => Nat.digitChar n = c

/-- The text up to the closing quotation mark, and what comes after it. -/
def read : List Char → Option (List Char × List Char)
  | [] => none
  | c :: rest =>
      if c = quotationMark then some ([], rest)
      else if c = reverseSolidus then
        match rest with
        | 'u' :: '0' :: '0' :: high :: low :: rest => do
            let high ← digit high
            let low ← digit low
            let (text, after) ← read rest
            return (Char.ofNat (16 * high + low) :: text, after)
        | letter :: rest => do
            let c ← unescape letter
            let (text, after) ← read rest
            return (c :: text, after)
        | [] => none
      else do
        let (text, after) ← read rest
        return (c :: text, after)

variable {text after : List Char}

end JsonString
