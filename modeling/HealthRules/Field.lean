import HealthRules.BodyPath
import HealthRules.Text.Search

/-!
# Fields of a probe

A field names what a condition reads from a probe. Seven fields have a token of their own, such as
`[STATUS]`; the body has `[BODY]` followed by a path, which may be empty.
-/

namespace HealthRules

/-- What a condition can read from a probe. -/
inductive Field where
  | status
  | ip
  | connected
  | responseTime
  | certificateExpiration
  | domainExpiration
  | dnsRcode
  | body (path : BodyPath)
deriving DecidableEq, Repr

namespace Field

def bodyToken : String := "[BODY]"
def ipToken : String := "[IP]"
def certificateExpirationToken : String := "[CERTIFICATE_EXPIRATION]"
def domainExpirationToken : String := "[DOMAIN_EXPIRATION]"

/-- The fields that a token of their own names. -/
def named : List (String × Field) :=
  [("[STATUS]", status), (ipToken, ip), ("[CONNECTED]", connected),
    ("[RESPONSE_TIME]", responseTime), (certificateExpirationToken, certificateExpiration),
    (domainExpirationToken, domainExpiration), ("[DNS_RCODE]", dnsRcode)]

/-- The field that a token names. -/
def ofToken? (token : List Char) : Option Field :=
  match Text.after? bodyToken.toList token with
  | some path => (BodyPath.ofText? path).map body
  | none => named.lookup (String.ofList token)

/-- The token that names a field, with plain indices in a path. -/
def token : Field → String
  | status => "[STATUS]"
  | ip => ipToken
  | connected => "[CONNECTED]"
  | responseTime => "[RESPONSE_TIME]"
  | certificateExpiration => certificateExpirationToken
  | domainExpiration => domainExpirationToken
  | dnsRcode => "[DNS_RCODE]"
  | body path => bodyToken ++ String.ofList path.print

end Field
end HealthRules
