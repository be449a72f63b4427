import PqDtls.Dtls.Types

/-! # Time stamps

    `ntp.c`, with its `double` arithmetic read as rational arithmetic. -/

namespace PqDtls.Dtls

def fracMax : Rat := 1000000

/-- `NTP_TO_DOUBLE`. -/
def ntpToDouble (a : Timeval) : Rat := a.tvSec / fracMax + a.tvUsec

/-- Conversion of a `double` to an integer type: towards zero. -/
def truncate (x : Rat) : Int := x.num.tdiv x.den

/-- A `uint64_t` stored in a `time_t`. -/
def toInt64 (n : Nat) : Int := Int.bmod n (2 ^ 64)

def ntpAdd (a b : Timeval) : Timeval :=
  let frac := a.tvUsec + b.tvUsec
  ⟨a.tvSec + b.tvSec + frac.shiftRight 32, frac⟩

/-- Seconds and fraction of `time`. -/
def splitTime (time : Rat) : Timeval :=
  let tvSec := toInt64 (sizeT (truncate time))
  ⟨tvSec, truncate ((time - tvSec) * fracMax)⟩

def ntpSub (a b : Timeval) : Timeval := splitTime (ntpToDouble a - ntpToDouble b)

def ntpFromMillis (millis : Nat) : Timeval := splitTime (ntpToDouble ⟨millis, 0⟩ / 1000)

end PqDtls.Dtls
