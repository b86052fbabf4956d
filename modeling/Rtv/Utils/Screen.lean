import Rtv.Lib.Exec

/-!
# `vprintf`

`utils/screen.c: vprintf`, with the characters that it puts out as a list. The outer loop goes over the
format; at a `%` the inner loop goes over the characters of a directive up to its conversion and puts
out the argument. Characters that it does not know it skips.

A pointer into the format is what is left of it before the terminator. Behind the terminator there is
nothing, and a read there stops the model with a fault. The arguments are the 64-bit words that
`va_arg` finds one after the other, of which a 32-bit argument is the lower half.

This module holds the definitions. What is read of the format is in `Rtv.Utils.FormatReads`, what a
number looks like in `Rtv.Utils.NumberFormat`.
-/

namespace Rtv.Utils

open Rtv.Lib

/-! ## Strings and arguments -/

/-- A C string without its terminator. -/
structure CString where
  bytes : List UInt8
  nonzero : 0 ∉ bytes

/-- A pointer into a C string: what is left of it, or nothing behind its terminator. -/
abbrev StrPtr := Option (List UInt8)

namespace StrPtr

/-- `*p`. -/
def read : StrPtr → Exec UInt8
  | some (c :: _) => .ok c
  | some [] => .ok 0
  | none => .error .fault

/-- `p + 1`. -/
def next : StrPtr → StrPtr
  | some (_ :: rest) => some rest
  | some [] => none
  | none => none

end StrPtr

/-- What `va_arg` finds: the words, and the strings that pointers among them point to. -/
structure VaList where
  word : Nat → UInt64
  str : UInt64 → CString

/-! ## Numbers -/

/-- `PRINTF_MODE_PRECISION`. -/
def printfModePrecision : UInt32 := 1

/-- The variables of `vprintf` that a directive sets. -/
structure Directive where
  precision : UInt32
  width : UInt32
  upper : Bool
  padding : UInt8
  ells : UInt32
  mode : UInt32
deriving DecidableEq, Repr

/-- The variables at a `%`. -/
def Directive.init : Directive := ⟨0, 0, true, 32, 0, 0⟩

/-- `print_padding` and `print_digits`. -/
structure PrintFlags where
  padding : Bool
  digits : Bool
deriving DecidableEq, Repr

/-- `HANDLE_OPTIONS(q, max_w, end_i)` at the digit `i`. -/
def handleOptions (d : Directive) (maxW endI i q : UInt32) (print : PrintFlags) :
    PrintFlags × List UInt8 :=
  let print := if q ≠ 0 ∨ i = endI then { print with digits := true } else print
  let print :=
    if q = 0 ∧ ¬print.digits ∧ i ≥ maxW - d.width then { print with padding := true } else print
  let print :=
    if q = 0 ∧ ¬print.digits ∧ i ≥ maxW - d.precision then { print with digits := true } else print
  (print, if q = 0 ∧ print.padding ∧ ¬print.digits then [d.padding] else [])

/-- The loop over the digits of a number, from the digit `i` on. -/
def putDigits (d : Directive) (maxW endI : UInt32) (char : UInt32 → UInt8) :
    UInt32 → PrintFlags → List UInt32 → List UInt8
  | _, _, [] => []
  | i, print, q :: qs =>
    let (print, out) := handleOptions d maxW endI i q print
    out ++ (if print.digits then [char q] else []) ++ putDigits d maxW endI char (i + 1) print qs

/-- A hexadecimal digit. -/
def hexChar (upper : Bool) (li : UInt32) : UInt8 :=
  if li > 9 then (if upper then 65 else 97) + li.toUInt8 - 0x0A else 48 + li.toUInt8

/-- A decimal digit. -/
def decChar (q : UInt32) : UInt8 := 48 + q.toUInt8

/-- `base10_u32_divisors`. -/
def base10U32Divisors : List UInt32 :=
  [1000000000, 100000000, 10000000, 1000000, 100000, 10000, 1000, 100, 10, 1]

/-- The digits `q` of the loop over the divisors. -/
def divisorDigits : List UInt32 → UInt32 → List UInt32
  | [], _ => []
  | divisor :: divisors, x => x / divisor :: divisorDigits divisors (x % divisor)

/-- The digits `li` of the loop over the `w` hexadecimal digits. -/
def hexDigits (w : Nat) (x : UInt64) : List UInt32 :=
  (List.range w).map fun i => ((x >>> ((UInt64.ofNat (w - 1 - i)) <<< 2)) &&& 0x0F).toUInt32

/-- `%x` and `%X`. -/
def putHex (d : Directive) (word : UInt64) : List UInt8 :=
  let w := if d.ells = 2 then 16 else 8
  let x := if d.ells = 2 then word else word.toUInt32.toUInt64
  putDigits d (.ofNat w) (.ofNat w - 1) (hexChar d.upper) 0 ⟨false, false⟩ (hexDigits w x)

/-- `%u`. -/
def putUnsigned (d : Directive) (x : UInt32) : List UInt8 :=
  putDigits d 10 9 decChar 0 ⟨false, false⟩ (divisorDigits base10U32Divisors x)

/-- `%d`. -/
def putSigned (d : Directive) (x : Int32) : List UInt8 :=
  if x < 0 then 45 :: putUnsigned d (x * -1).toUInt32 else putUnsigned d x.toUInt32

/-- `%s`. -/
def putString (d : Directive) (s : UInt64) (args : VaList) : List UInt8 :=
  if s = 0 then [40, 110, 117, 108, 108, 41]
  else if d.precision > 0 then (args.str s).bytes.take d.precision.toNat
  else (args.str s).bytes

/-! ## The loops -/

/-- Where `vprintf` is: in the format, in the arguments and in its output. -/
structure Printf where
  fmt : StrPtr
  arg : Nat
  out : List UInt8

/-- An argument is taken and put out. -/
def Printf.put (s : Printf) (out : List UInt8) : Printf :=
  { s with arg := s.arg + 1, out := s.out ++ out }

/-- What the characters of a directive other than conversions do to its variables. -/
def Directive.option (d : Directive) (c : UInt8) : Directive :=
  if c = 108 then { d with ells := d.ells + 1 }
  else if c = 46 then { d with mode := printfModePrecision }
  else if 48 ≤ c ∧ c ≤ 57 then
    if d.mode = printfModePrecision then
      { d with precision := d.precision * 10 + (c - 48).toUInt32 }
    else if d.mode = 0 ∧ d.width = 0 ∧ c = 48 then
      { d with padding := 48 }
    else
      { d with width := d.width * 10 + (c - 48).toUInt32 }
  else d

/-- The loop over the characters of a directive. It leaves the pointer at the conversion, or at the
terminator. -/
def directiveLoop (args : VaList) : Nat → Directive → Printf → Exec Printf
  | 0, _, _ => .error .hang
  | fuel + 1, d, s => do
    let c ← s.fmt.read
    if c = 0 then return s
    else if c = 120 then return s.put (putHex { d with upper := false } (args.word s.arg))
    else if c = 88 then return s.put (putHex d (args.word s.arg))
    else if c = 117 then return s.put (putUnsigned d (args.word s.arg).toUInt32)
    else if c = 100 then return s.put (putSigned d (args.word s.arg).toUInt32.toInt32)
    else if c = 115 then return s.put (putString d (args.word s.arg) args)
    else if c = 37 then return { s with out := s.out ++ [37] }
    else directiveLoop args fuel (d.option c) { s with fmt := s.fmt.next }

/-- The loop over the format. -/
def vprintfLoop (args : VaList) (steps : Nat) : Nat → Printf → Exec Printf
  | 0, _ => .error .hang
  | fuel + 1, s => do
    let c ← s.fmt.read
    if c = 0 then return s
    else
      let s ←
        if c = 37 then directiveLoop args steps .init { s with fmt := s.fmt.next }
        else pure { s with out := s.out ++ [c] }
      vprintfLoop args steps fuel { s with fmt := s.fmt.next }

/-- `vprintf`: what it puts out. -/
def vprintf (fmt : CString) (args : VaList) : Exec (List UInt8) := do
  -- each round of a loop moves on by a character
  let fuel := fmt.bytes.length + 2
  let s ← vprintfLoop args fuel fuel ⟨some fmt.bytes, 0, []⟩
  return s.out

end Rtv.Utils
