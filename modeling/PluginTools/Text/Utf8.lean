/-
Octets as text. A well-formed sequence becomes its character; an octet that is part of none is kept as
a gap, so that a reader can refuse it where text is wanted and pass over it elsewhere.
-/
import PluginTools.Text.Quoted

namespace PluginTools.Utf8

/-- A continuation octet, by its six bits. -/
def tail? (b : UInt8) : Option Nat :=
  if 0x80 ≤ b ∧ b ≤ 0xbf then some (b.toNat - 0x80) else none

/-- The character that starts here and the number of its octets. Only the shortest form of a scalar
value is well-formed. -/
def character? : List UInt8 → Option (Char × Nat)
  | [] => none
  | a :: rest =>
    if a < 0x80 then (Quoted.scalar? a.toNat).map (·, 1)
    else if 0xc2 ≤ a ∧ a ≤ 0xdf then
      match rest with
      | b :: _ => do
        let c ← Quoted.scalar? ((a.toNat - 0xc0) * 64 + (← tail? b))
        some (c, 2)
      | _ => none
    else if 0xe0 ≤ a ∧ a ≤ 0xef then
      match rest with
      | b :: c :: _ => do
        let code := ((a.toNat - 0xe0) * 64 + (← tail? b)) * 64 + (← tail? c)
        if code < 0x800 then none
        let c ← Quoted.scalar? code
        some (c, 3)
      | _ => none
    else if 0xf0 ≤ a ∧ a ≤ 0xf4 then
      match rest with
      | b :: c :: d :: _ => do
        let code := (((a.toNat - 0xf0) * 64 + (← tail? b)) * 64 + (← tail? c)) * 64 + (← tail? d)
        if code < 0x10000 then none
        let c ← Quoted.scalar? code
        some (c, 4)
      | _ => none
    else none

/-- Decodes octets; the number counts octets that a character has already used up. -/
def decodeFrom : Nat → List UInt8 → List (Option Char)
  | _, [] => []
  | skip + 1, _ :: bs => decodeFrom skip bs
  | 0, b :: bs =>
    match character? (b :: bs) with
    | some (c, n) => some c :: decodeFrom (n - 1) bs
    | none => none :: decodeFrom 0 bs

/-- The characters of octets, with a gap for each octet that is part of none. -/
def decode (octets : List UInt8) : List (Option Char) := decodeFrom 0 octets

/-- The text without its gaps, if it has none. -/
def whole? : List (Option Char) → Option (List Char)
  | [] => some []
  | none :: _ => none
  | some c :: cs => (whole? cs).map (c :: ·)

/-- The text of octets that are well-formed throughout. -/
def text? (octets : List UInt8) : Option (List Char) := whole? (decode octets)

end PluginTools.Utf8
