import LivePreview.Binary64.Basic
import LivePreview.Retry.Span

/-!
Exponential backoff. Delays grow by a factor up to a limit, and what is waited is spread around the
delay at random. The numbers are rounded as binary floating point rounds them.
-/

namespace LivePreview.Retry

/-- The delay after the current one. -/
def grownDelay (current : Span) (multiplier : Binary64) (most : Span) : Span :=
  let grown := (Binary64.ofNat current).mul multiplier
  if !grown.isFinite || (Binary64.ofNat most).le grown then most
  else max (grown.roundToNat Span.longest) current

/-- The delay that is waited. The sample, between 0 and 1, tells where it lies between the current
delay less its fraction and the current delay plus its fraction. -/
def spreadDelay (current : Span) (fraction : Binary64) (most : Span) (sample : Binary64) : Span :=
  let base := Binary64.ofNat current
  let two := Binary64.ofNat 2
  let place := (two.mul (sample.clamp .zero .one)).sub .one
  let offset := (base.mul fraction).mul place
  min ((base.add offset).orZero.roundToNat Span.longest) most

end LivePreview.Retry
