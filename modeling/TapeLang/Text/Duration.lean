import TapeLang.Text.Decimal

/-!
# Durations

A duration is shown in the largest unit of which it has at least one, in thousandths of that unit.
-/

namespace TapeLang.Text

/-- The unit that suits a duration: its nanoseconds and its sign. -/
def durationUnit (nanos : Nat) : Nat × String :=
  if 1000000000 ≤ nanos then (1000000000, "s")
  else if 1000000 ≤ nanos then (1000000, "ms")
  else if 1000 ≤ nanos then (1000, "µs")
  else (1, "ns")

/-- A duration with three places. -/
def duration (nanos : Nat) : String :=
  let (size, sign) := durationUnit nanos
  let thousandths := (nanos * 1000 + size / 2) / size
  String.ofList (decimal (thousandths / 1000) ++ '.' :: padLeft 3 '0' (decimal (thousandths % 1000))) ++ sign

end TapeLang.Text
