import Mathlib.Algebra.Order.Ring.Rat
import MirrorMirage.Core.Dict
import MirrorMirage.Pathlib

/-!
# Configuration records

The parts of `config.py` that the modelled components read.  Seconds are
rationals: the code computes with floats, whose rounding is not modelled.
-/

namespace MirrorMirage

structure FastlyCdn where
  serviceId : String
  purgeAllServiceDomains : Bool := false
  deriving DecidableEq, Repr

structure CloudFrontCdn where
  distributionId : String
  region : String := "us-east-1"
  deriving DecidableEq, Repr

structure GcpCdnConfig where
  project : String
  urlMap : String
  quotaPerMinute : ℤ := 500
  deriving DecidableEq, Repr

/-- A block under `cdns`, told apart by its `type`. -/
inductive CdnConfig where
  | fastly (cdn : FastlyCdn)
  | cloudFront (cdn : CloudFrontCdn)
  | gcp (cdn : GcpCdnConfig)
  deriving DecidableEq, Repr

def CdnConfig.type : CdnConfig → String
  | .fastly _ => "fastly"
  | .cloudFront _ => "cloudfront"
  | .gcp _ => "gcp_cdn"

/-- One CDN binding inside a watch. -/
structure Binding where
  cdn : String
  urlPrefix : String
  deriving DecidableEq, Repr

/-- One filesystem root to watch and its CDN bindings. -/
structure WatchConfig where
  path : Path
  ignore : List String := []
  flushOnDelete : Bool := false
  bindings : List Binding
  deriving DecidableEq, Repr

/-- Retry policy for failed CDN purges. -/
structure RetryConfig where
  maxAttempts : ℤ := 8
  initialBackoffSeconds : ℚ := 5
  maxBackoffSeconds : ℚ := 300
  deriving DecidableEq, Repr

/-- Daemon-wide tuning. -/
structure DaemonConfig where
  batchQuietWindowSeconds : ℚ := 10
  batchMaxSize : ℤ := 500
  batchMaxAgeSeconds : ℚ := 60
  retry : RetryConfig := {}
  deriving DecidableEq, Repr

/-- The runtime configuration.  The schema takes `credentials` from the
config file too; `load` writes over those of the CDNs. -/
structure Config where
  cdns : Dict String CdnConfig
  watches : List WatchConfig
  daemon : DaemonConfig := {}
  credentials : Dict String (Dict String String) := Dict.empty
  deriving DecidableEq

end MirrorMirage
