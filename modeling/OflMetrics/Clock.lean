/-
The wall clock of the firmwares: the counters `clock_100ms` to `clock_d`,
counted by each firmware's `tmr0_isr`, ten times a second.
-/

namespace OflMetrics

/-- The counters; all are bytes. -/
structure Clock where
  clockD : UInt8
  clockH : UInt8
  clockM : UInt8
  clockS : UInt8
  clock100ms : UInt8
  deriving DecidableEq

namespace Clock

def zero : Clock := { clockD := 0, clockH := 0, clockM := 0, clockS := 0, clock100ms := 0 }

/-- `clock_100ms+=1; if (clock_100ms == 10) { clock_s++; clock_100ms=0; }` -/
def count (k : Clock) : Clock :=
  if k.clock100ms + 1 = 10 then { k with clockS := k.clockS + 1, clock100ms := 0 }
  else { k with clock100ms := k.clock100ms + 1 }

/-- `if (clock_s == 60) { clock_m++; clock_s=0;}` -/
def carryS (k : Clock) : Clock := if k.clockS = 60 then { k with clockM := k.clockM + 1, clockS := 0 } else k

/-- `if (clock_m == 60) { clock_h++; clock_m=0;}` -/
def carryM (k : Clock) : Clock := if k.clockM = 60 then { k with clockH := k.clockH + 1, clockM := 0 } else k

/-- `if (clock_h == 24) { clock_d++; clock_h=0;}` -/
def carryH (k : Clock) : Clock := if k.clockH = 24 then { k with clockD := k.clockD + 1, clockH := 0 } else k

/-- The three carries, in order. -/
def carry (k : Clock) : Clock := k.carryS.carryM.carryH

end Clock

end OflMetrics
