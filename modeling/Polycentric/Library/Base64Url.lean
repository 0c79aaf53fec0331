import Mathlib

/-! Bytes as text in the 64 letters that are safe in URLs, without padding: three bytes are
four letters of six bits, and one or two bytes that are left over are filled up with zero
bits on the right. -/
namespace Base64Url

def letters : List Char := "ABCDEFGHIJKLMNOPQRSTUVWXYZabcdefghijklmnopqrstuvwxyz0123456789-_".toList

def letter (n : Nat) : Char := letters.getD n 'A'

def value (c : Char) : Option Nat := letters.findIdx? fun other => other = c

def encode : List UInt8 → List Char
  | [] => []
  | [a] =>
      let n := a.toNat * 16
      [letter (n / 64), letter (n % 64)]
  | [a, b] =>
      let n := (a.toNat * 256 + b.toNat) * 4
      [letter (n / 4096), letter (n / 64 % 64), letter (n % 64)]
  | a :: b :: c :: rest =>
      let n := a.toNat * 65536 + b.toNat * 256 + c.toNat
      letter (n / 262144) :: letter (n / 4096 % 64) :: letter (n / 64 % 64) :: letter (n % 64) :: encode rest

/-- Only letters are read, and only zero bits may be left over. -/
def decode : List Char → Option (List UInt8)
  | [] => some []
  | [_] => none
  | [p, q] => do
      let n := (← value p) * 64 + (← value q)
      if n % 16 = 0 then return [UInt8.ofNat (n / 16)] else none
  | [p, q, r] => do
      let n := (← value p) * 4096 + (← value q) * 64 + (← value r)
      if n % 4 = 0 then return [UInt8.ofNat (n / 1024), UInt8.ofNat (n / 4)] else none
  | p :: q :: r :: t :: rest => do
      let n := (← value p) * 262144 + (← value q) * 4096 + (← value r) * 64 + (← value t)
      return UInt8.ofNat (n / 65536) :: UInt8.ofNat (n / 256) :: UInt8.ofNat n :: (← decode rest)

end Base64Url
