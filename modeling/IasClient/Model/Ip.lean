import IasClient.Model.Worker

namespace IasClient

namespace Ip

/-- The test of the TLS parameters of a report. -/
def tlsParameters (env : Env) (j : Json) : Bool :=
  (j "tls_version" != "") && (j "tls_cipher_suite" != "") && (j "tls_overhead" != "") &&
    decide (0 < env.toInt (j "tls_overhead"))

def run (env : Env) (o : Outcome) (g : Globals) (w : Worker) : Option (Globals × Worker) :=
  match w.pc with
  | .received =>
    w.goto g (if w.mResponse = -1 ∨ w.mResponse = 0 then .returned
      else if env.parse w.text "cmd" = "ip_report" then .ipClient
      else .whileRunning)
  | .ipClient =>
    some (g, { w with
      jMeasurementResultsIp := { w.jMeasurementResultsIp with
        client := some (env.parse w.text "client") }
      pc := if env.readLong "TLS" 1 = 1 then .ipTls else .ipVersion })
  | .ipTls =>
    if tlsParameters env (env.parse w.text) then
      some (g, { w with
        jMeasurementResultsIp := { w.jMeasurementResultsIp with
          tlsVersion := some (env.parse w.text "tls_version")
          tlsCipherSuite := some (env.parse w.text "tls_cipher_suite")
          tlsOverhead := some (env.parse w.text "tls_overhead") }
        pc := .ipVersion })
    else w.goto g .tlsMissing
  | .tlsMissing => w.goto { g with tlsParametersMissing := true } .tlsHasError
  | .tlsHasError => w.goto { g with hasError := true } .ipVersion
  | .ipVersion =>
    some (g, { w with
      jMeasurementResultsIp := { w.jMeasurementResultsIp with
        clientIpVersion := some (if w.ipv6 then "v6" else "v4") }
      pc := .returned })
  | .whileRunning | .whileActive | .whileStopped | .receive | .setSynced =>
    receiveLoop .returned o g w
  | _ => connect false .whileRunning o g w

end Ip

end IasClient
