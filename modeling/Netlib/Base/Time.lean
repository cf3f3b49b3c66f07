import Mathlib

/-!
# `netlib::Time`

A time is a number of microseconds since the epoch (`base/Time.h`).  Its callers take the seconds and
the microseconds from it by truncated division.
-/

namespace Netlib

def cMicroSecondsPerSecond : Int := 1000 * 1000

variable {us : Int}

theorem tdiv_cMicroSecondsPerSecond (h : 0 ≤ us) :
    us.tdiv cMicroSecondsPerSecond = us / 1000000 := Int.tdiv_eq_ediv_of_nonneg h

theorem tmod_cMicroSecondsPerSecond (h : 0 ≤ us) :
    us.tmod cMicroSecondsPerSecond = us % 1000000 := Int.tmod_eq_emod_of_nonneg h

end Netlib
