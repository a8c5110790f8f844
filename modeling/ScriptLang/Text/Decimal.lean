namespace ScriptLang.Text.Decimal

/-- The shortest numeral of a natural number. -/
def ofNat (n : Nat) : String :=
  String.ofList (Nat.toDigits 10 n)

/-- The numeral of a 64-bit integer, with a minus sign when it is negative. -/
def ofInt64 (n : Int64) : String :=
  match n.toInt with
  | .ofNat m => ofNat m
  | .negSucc m => "-" ++ ofNat (m + 1)

/-- The number that a run of digits stands for.  Leading zeros count for nothing. -/
def value (digits : String) : Nat :=
  digits.toList.foldl (fun n c => 10 * n + (c.toNat - '0'.toNat)) 0

/-- The largest 64-bit integer. -/
def largest : Nat := 9223372036854775807

/-- The integer that a run of digits stands for, if it is not too large. -/
def read? (digits : String) : Option Int64 :=
  if value digits ≤ largest then some (Int64.ofNat (value digits)) else none

end ScriptLang.Text.Decimal
