/-!
# One scan at a time

Requests for a scan may come while one is running. They are folded into one more scan, which is
started when the running one ends, however many requests came.
-/

namespace Deadwood.Scan

/-- Is a scan running, and is another one asked for? -/
structure Gate where
  scanning : Bool
  pending : Bool
  deriving Repr, DecidableEq, Inhabited

namespace Gate

/-- No scan is running, and none is asked for. -/
def idle : Gate := { scanning := false, pending := false }

/-- Asks for a scan. It may start if none is running; otherwise the request is noted. -/
def tryBegin (g : Gate) : Bool × Gate :=
  if g.scanning then (false, { g with pending := true }) else (true, { g with scanning := true })

/-- Ends a scan. Says whether another one was asked for meanwhile. -/
def finish (g : Gate) : Bool × Gate := (g.pending, { scanning := false, pending := false })

end Gate
end Deadwood.Scan
