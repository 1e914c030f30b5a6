import IasClient.Model.Callback

namespace IasClient

namespace AndroidConnector

/-- The fields of a Java BandwidthResult that come from values of the source's own. -/
structure BandwidthResult where
  bytes : UInt64
  bytesDistinct : UInt64
  bytesTotal : UInt64
  bytesSlowStart : UInt64
  durationNsTotal : UInt64
  relativeTimeNsMeasurementStart : UInt64
  numStreamsStart : Int

/-- `none` is the exception of a `std::stoll`. -/
def setBandwidthResult (a : Aggregate) : Option BandwidthResult := do
  let bytes ← stoll a.bytes
  let bytesDistinct ← stoll a.bytesDistinct
  let bytesTotal ← stoll a.bytesTotal
  let bytesSlowStart ← stoll a.bytesSlowStart
  let durationNsTotal ← stoll a.durationNsTotal
  let relativeTimeNsMeasurementStart ← stoll a.relativeTimeNsMeasurementStart
  return { bytes, bytesDistinct, bytesTotal, bytesSlowStart, durationNsTotal,
           relativeTimeNsMeasurementStart, numStreamsStart := a.numStreamsStart }

/-- What `callbackFinished` makes of `download_info` and `upload_info`. -/
def bandwidthResults (m : Message) : Option (List BandwidthResult × List BandwidthResult) := do
  let downloadInfo ← m.downloadInfo.mapM setBandwidthResult
  let uploadInfo ← m.uploadInfo.mapM setBandwidthResult
  return (downloadInfo, uploadInfo)

end AndroidConnector

end IasClient
