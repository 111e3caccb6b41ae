import StructuredLog.Logger

/-!
Timing of operations. An operation that is measured is announced, and its end is logged with the
time it took on the monotonic clock: as completed if it returned, and as failed, with the object
it raised, if it did not.
-/

namespace StructuredLog.Measurement

open Text

def durationKey : Text := ascii "duration_ms"

def milliseconds (start stop : Instant) : Binary64 :=
  (Binary64.ofInt (Instant.wrap (stop - start))).divNat 1000000

def starting (operation : Text) (extra : Fields) : LogCall :=
  LogMethod.debug.call (ascii "Starting " ++ operation) extra none Origin.unknown

def timed (extra : Fields) (duration : Binary64) : Fields :=
  extra.set durationKey (.double duration)

def completed (operation : Text) (extra : Fields) (duration : Binary64) : LogCall :=
  LogMethod.info.call (ascii "Completed " ++ operation) (timed extra duration) none Origin.unknown

def failed (operation : Text) (extra : Fields) (duration : Binary64) : LogCall :=
  LogMethod.exception.call (ascii "Failed " ++ operation) (timed extra duration) none Origin.unknown

end StructuredLog.Measurement
