/-! # Hexadecimal numbers

Error texts show codes and checksums in base sixteen: `0x`, then lower-case digits, filled with
zeros on the left up to a least number of digits.
-/

namespace FramedLink.Text

/-- `n` in base sixteen, with at least `digits` digits behind the `0x`. -/
def hexadecimal (digits n : Nat) : String :=
  let shown := Nat.toDigits 16 n
  "0x" ++ String.ofList (List.replicate (digits - shown.length) '0' ++ shown)

example : hexadecimal 1 0x1000000 = "0x1000000" := by cbv
example : hexadecimal 2 5 = "0x05" := by cbv
example : hexadecimal 8 0xBEEF = "0x0000beef" := by cbv

end FramedLink.Text
