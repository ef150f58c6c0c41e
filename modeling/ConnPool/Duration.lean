namespace ConnPool

/-- A span of time: whole seconds in a 64-bit word and a part below one second. -/
structure Duration where
  secs : UInt64
  nanos : Nat
  nanos_lt : nanos < 1000000000 := by decide
  deriving DecidableEq

namespace Duration

def zero : Duration := ⟨0, 0, by decide⟩

def ofSecs (s : UInt64) : Duration := ⟨s, 0, by decide⟩

def ofMillis (ms : UInt64) : Duration :=
  ⟨ms / 1000, (ms % 1000).toNat * 1000000, by
    have h : (ms % 1000).toNat < 1000 := by
      rw [UInt64.toNat_mod]; exact Nat.mod_lt _ (by decide)
    omega⟩

/-- Nanoseconds beyond a second carry; no duration if the seconds then leave their word. -/
def ofParts? (secs nanos : Nat) : Option Duration :=
  if secs + nanos / 1000000000 < UInt64.size then
    some ⟨(secs + nanos / 1000000000).toUInt64, nanos % 1000000000, Nat.mod_lt _ (by decide)⟩
  else none

/-- The seconds wrap beyond 64 bits. -/
def ofNanos (n : Nat) : Duration :=
  ⟨(n / 1000000000).toUInt64, n % 1000000000, Nat.mod_lt _ (by decide)⟩

def toNanos (d : Duration) : Nat := d.secs.toNat * 1000000000 + d.nanos

def isZero (d : Duration) : Bool := d.secs == 0 && d.nanos == 0

theorem ofNanos_toNanos (d : Duration) : ofNanos d.toNanos = d := by
  obtain ⟨s, n, hn⟩ := d
  have e₁ : (s.toNat * 1000000000 + n) / 1000000000 = s.toNat := by omega
  have e₂ : (s.toNat * 1000000000 + n) % 1000000000 = n := by omega
  simp [ofNanos, toNanos, e₁, e₂]

theorem ofParts?_secs_nanos (d : Duration) : ofParts? d.secs.toNat d.nanos = some d := by
  obtain ⟨s, n, hn⟩ := d
  have e₁ : n / 1000000000 = 0 := by omega
  have e₂ : n % 1000000000 = n := by omega
  have e₃ : s.toNat < UInt64.size := s.toNat_lt_size
  simp [ofParts?, e₁, e₂, e₃]

/-- Digits of a fraction of `width` places, without the zeros at its end. -/
def fractionDigits (width n : Nat) : List Char :=
  let digits := Nat.toDigits 10 n
  let zeros := List.replicate (width - digits.length) '0'
  ((zeros ++ digits).reverse.dropWhile (· = '0')).reverse

def decimal (whole fraction width : Nat) (suffix : String) : String :=
  toString whole ++
    (if fraction = 0 then "" else "." ++ String.ofList (fractionDigits width fraction)) ++ suffix

/-- Written in the largest unit that gives a whole part, with no zeros at the end. -/
def text (d : Duration) : String :=
  if d.secs ≠ 0 then decimal d.secs.toNat d.nanos 9 "s"
  else if 1000000 ≤ d.nanos then decimal (d.nanos / 1000000) (d.nanos % 1000000) 6 "ms"
  else if 1000 ≤ d.nanos then decimal (d.nanos / 1000) (d.nanos % 1000) 3 "µs"
  else decimal d.nanos 0 0 "ns"

end Duration
end ConnPool
