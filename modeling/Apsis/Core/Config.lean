/-
# Settings and the clock

The settings that the workers read, with the model validator that relates two
of them. Times and durations are integers counting microseconds, the resolution
of Python's `datetime` and `timedelta`.
-/

import Mathlib.Algebra.Order.Ring.Int
import Apsis.Library.Text

namespace Apsis.Core

open Apsis.Library

/-- A tz-aware `datetime`, in microseconds. -/
abbrev Time := ℤ

/-- `timedelta(seconds=seconds)` -/
def timedelta (seconds : ℤ) : ℤ := seconds * 1000000

/-- A row identifier. The source draws them from `gen_random_uuid()`. -/
abbrev Uuid := ℕ

/-- The fields of `Settings` that the two workers use. -/
structure Settings where
  jobLeaseSeconds : ℤ := 120
  jobHandlerTimeoutSeconds : ℤ := 55
  outboxMaxRetries : ℤ := 8
  passPredictionHorizonHours : ℤ := 48
  deriving DecidableEq

namespace Settings

/-- `Settings.validate_lease_invariant`: the lease has to cover two handler
timeouts, so that a slow job is not taken for a zombie while it still runs. -/
def validateLeaseInvariant (settings : Settings) : Except Text Settings :=
  if settings.jobLeaseSeconds < 2 * settings.jobHandlerTimeoutSeconds then
    .error "JOB_LEASE_SECONDS must be >= 2 * JOB_HANDLER_TIMEOUT_SECONDS".toList
  else .ok settings

/-- What an accepted value satisfies. -/
theorem lease_le_of_validateLeaseInvariant {settings : Settings}
    (h : settings.validateLeaseInvariant = .ok settings) :
    2 * settings.jobHandlerTimeoutSeconds ≤ settings.jobLeaseSeconds := by
  unfold validateLeaseInvariant at h
  split at h
  · cases h
  · next hlease => exact not_lt.mp hlease

/-- The defaults pass their own check. -/
theorem validateLeaseInvariant_default :
    ({} : Settings).validateLeaseInvariant = .ok {} := by
  decide

end Settings

end Apsis.Core
