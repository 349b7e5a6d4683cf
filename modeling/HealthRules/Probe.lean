import HealthRules.Duration

/-!
# Probes

What was measured when an endpoint was probed. Conditions read these fields and change none.
-/

namespace HealthRules

structure Probe where
  httpStatus : UInt16
  body : List UInt8
  ip : String
  hostname : String
  connected : Bool
  /-- How long the probe took. -/
  duration : Duration
  /-- How long the certificate is still valid. -/
  certificateExpiration : Duration
  /-- How long the domain is still registered. -/
  domainExpiration : Duration
  dnsRcode : String
deriving DecidableEq, Repr

/-- A probe that measured nothing. -/
def Probe.empty : Probe where
  httpStatus := 0
  body := []
  ip := ""
  hostname := ""
  connected := false
  duration := .zero
  certificateExpiration := .zero
  domainExpiration := .zero
  dnsRcode := ""

end HealthRules
