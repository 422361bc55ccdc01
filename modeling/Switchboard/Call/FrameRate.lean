/-!
# Frame rates

A frame rate is a single precision number, kept as its 32 bits. Rates are
compared as numbers: both zeros are one rate, and what is no number differs
from everything, itself included.
-/

namespace Switchboard.Call

structure FrameRate where
  bits : UInt32 := 0
  deriving DecidableEq, Repr

namespace FrameRate

/-- The bits without the sign. -/
def magnitude (f : FrameRate) : UInt32 :=
  f.bits &&& 0x7FFFFFFF

/-- The bits are those of no number: the exponent is full, and the fraction
is not empty. -/
def isNaN (f : FrameRate) : Bool :=
  0x7F800000 < f.magnitude

def isZero (f : FrameRate) : Bool :=
  f.magnitude = 0

def same (a b : FrameRate) : Bool :=
  !a.isNaN && !b.isNaN && (a.bits = b.bits || (a.isZero && b.isZero))

end FrameRate

end Switchboard.Call
