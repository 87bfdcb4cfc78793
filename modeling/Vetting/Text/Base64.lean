import Vetting.Text.Basic

/-!
# Octets in base 64

Four digits write three octets, six bits a digit; signs of padding fill the last group up. Code
points that are neither digits nor padding do not count, and what follows the padding does not
either.
-/

namespace Vetting.Text

def base64Value? (c : CodePoint) : Option Nat :=
  if 65 ≤ c ∧ c ≤ 90 then some (c - 65)
  else if 97 ≤ c ∧ c ≤ 122 then some (c - 71)
  else if 48 ≤ c ∧ c ≤ 57 then some (c + 4)
  else if c = 43 then some 62
  else if c = 47 then some 63
  else none

def padding : CodePoint := 61

/-- The octets that follow, after `group` digits of a group of which `held` is not yet written, and
after `pads` signs of padding. Without padding, the last group must be full. -/
def base64From (group held pads : Nat) : List CodePoint → Option (List Nat)
  | [] => if group = 0 then some [] else none
  | c :: rest =>
    if c = padding then
      if 2 ≤ group ∧ 4 ≤ group + pads + 1 then some []
      else base64From group held (if 2 ≤ group then pads + 1 else pads) rest
    else
      match base64Value? c with
      | none => base64From group held pads rest
      | some d =>
        match group with
        | 0 => base64From 1 d 0 rest
        | 1 => (base64From 2 (d % 16) 0 rest).map fun more => (held * 4 + d / 16) :: more
        | 2 => (base64From 3 (d % 4) 0 rest).map fun more => (held * 16 + d / 4) :: more
        | _ => (base64From 0 0 0 rest).map fun more => (held * 64 + d) :: more

/-- The octets that a text in base 64 writes, unless its last group is not full. -/
def octetsOfBase64? (points : List CodePoint) : Option (List Nat) := base64From 0 0 0 points

end Vetting.Text
