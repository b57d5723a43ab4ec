import TorrentFs.Lib.Commits
import TorrentFs.Lib.Json

/-!
# Configuration

The sections of the configuration file, the checks made when it is loaded, and the JSON object
the settings are handed to the wrapper in. Every field is optional; a field that is not given is
not written. The section of piece priorities takes part in neither.
-/

namespace TorrentFs.Config

open Json Option

/-- An `f64`; a finite one is the number its JSON text spells. -/
inductive F64
  | finite (f : Json.Float)
  | nonFinite

abbrev Field := String × Option Value

def strField (name : String) (val : Option Bytes) : Field :=
  (name, val.bind fun s => if s = [] then none else some (.str s))

def intField (name : String) (val : Option ℤ) : Field := (name, val.map .int)

def boolField (name : String) (val : Option Bool) : Field := (name, val.map .bool)

def floatField (name : String) (val : Option F64) : Field :=
  (name, val.map fun
    | .finite f => .float f
    | .nonFinite => .int 0)

def writeJson (fields : List Field) (map : Object) : Object :=
  fields.foldl (fun map field =>
    match field.2 with
    | some v => map.insert (utf8 field.1) v
    | none => map) map

/-- What the checks take from the build: whether libtorrent has I2P support, and the debug form
of a string. -/
structure Build where
  i2pEnabled : Bool
  debugText : Bytes → String

def checkRange (sectionName name : String) (low high : ℤ) : Option ℤ → Except String Unit
  | none => .ok ()
  | some v =>
    if v < low then .error s!"[{sectionName}] {name} must be >= {low}, got {v}"
    else if v > high then .error s!"[{sectionName}] {name} must be <= {high}, got {v}"
    else .ok ()

/-! ### The sections -/

structure ConnectionsConfig where
  listenInterfaces : Option Bytes := none
  outgoingInterfaces : Option Bytes := none
  maxConnections : Option ℤ := none
  maxUploads : Option ℤ := none
  listenQueueSize : Option ℤ := none
  connectionSpeed : Option ℤ := none
  smoothConnects : Option Bool := none
  allowMultipleConnectionsPerIp : Option Bool := none
  maxPeerlistSize : Option ℤ := none
  maxPausedPeerlistSize : Option ℤ := none
  minReconnectTime : Option ℤ := none
  peerConnectTimeout : Option ℤ := none

def ConnectionsConfig.fields (c : ConnectionsConfig) : List Field :=
  [strField "listen_interfaces" c.listenInterfaces,
    strField "outgoing_interfaces" c.outgoingInterfaces,
    intField "max_connections" c.maxConnections,
    intField "max_uploads" c.maxUploads,
    intField "listen_queue_size" c.listenQueueSize,
    intField "connection_speed" c.connectionSpeed,
    boolField "smooth_connects" c.smoothConnects,
    boolField "allow_multiple_connections_per_ip" c.allowMultipleConnectionsPerIp,
    intField "max_peerlist_size" c.maxPeerlistSize,
    intField "max_paused_peerlist_size" c.maxPausedPeerlistSize,
    intField "min_reconnect_time" c.minReconnectTime,
    intField "peer_connect_timeout" c.peerConnectTimeout]

def checkPositiveI32 (name : String) (value : Option ℤ) : Except String Unit :=
  checkRange "connections" name 1 (2 ^ 31 - 1) value

def ConnectionsConfig.validate (c : ConnectionsConfig) : Except String Unit := do
  checkPositiveI32 "max_connections" c.maxConnections
  checkPositiveI32 "max_uploads" c.maxUploads

structure DhtConfig where
  enabled : Option Bool := none
  maxDhtItems : Option ℤ := none
  dhtAnnounceInterval : Option ℤ := none
  maxActiveDhtLimit : Option ℤ := none

def DhtConfig.fields (c : DhtConfig) : List Field :=
  [boolField "enable_dht" c.enabled,
    intField "max_dht_items" c.maxDhtItems,
    intField "dht_announce_interval" c.dhtAnnounceInterval,
    intField "max_active_dht_limit" c.maxActiveDhtLimit]

structure LocalDiscoveryConfig where
  lsdEnabled : Option Bool := none
  upnpEnabled : Option Bool := none
  natpmpEnabled : Option Bool := none

def LocalDiscoveryConfig.fields (c : LocalDiscoveryConfig) : List Field :=
  [boolField "enable_lsd" c.lsdEnabled,
    boolField "enable_upnp" c.upnpEnabled,
    boolField "enable_natpmp" c.natpmpEnabled]

structure RateLimitsConfig where
  downloadRateLimit : Option ℤ := none
  uploadRateLimit : Option ℤ := none
  rateLimitUtp : Option Bool := none
  rateLimitIpOverhead : Option Bool := none

def RateLimitsConfig.fields (c : RateLimitsConfig) : List Field :=
  [intField "download_rate_limit" c.downloadRateLimit,
    intField "upload_rate_limit" c.uploadRateLimit,
    boolField "rate_limit_utp" c.rateLimitUtp,
    boolField "rate_limit_ip_overhead" c.rateLimitIpOverhead]

def checkNonNegativeI32 (name : String) (value : Option ℤ) : Except String Unit :=
  checkRange "rate_limits" name 0 (2 ^ 31 - 1) value

def RateLimitsConfig.validate (c : RateLimitsConfig) : Except String Unit := do
  checkNonNegativeI32 "download_rate_limit" c.downloadRateLimit
  checkNonNegativeI32 "upload_rate_limit" c.uploadRateLimit

structure DiskIoConfig where
  diskIoWriteMode : Option ℤ := none
  diskIoReadMode : Option ℤ := none
  filePoolSize : Option ℤ := none
  maxQueuedDiskBytes : Option ℤ := none
  maxQueuedDiskBytesLowWatermark : Option ℤ := none
  useDiskReadAhead : Option Bool := none
  lockDiskCache : Option Bool := none
  noAtimeStorage : Option Bool := none
  lowPrioDisk : Option Bool := none

def DiskIoConfig.fields (c : DiskIoConfig) : List Field :=
  [intField "disk_io_write_mode" c.diskIoWriteMode,
    intField "disk_io_read_mode" c.diskIoReadMode,
    intField "file_pool_size" c.filePoolSize,
    intField "max_queued_disk_bytes" c.maxQueuedDiskBytes,
    intField "max_queued_disk_bytes_low_watermark" c.maxQueuedDiskBytesLowWatermark,
    boolField "use_disk_read_ahead" c.useDiskReadAhead,
    boolField "lock_disk_cache" c.lockDiskCache,
    boolField "no_atime_storage" c.noAtimeStorage,
    boolField "low_prio_disk" c.lowPrioDisk]

structure CacheConfig where
  cacheSize : Option ℤ := none
  cacheExpiry : Option ℤ := none
  useReadCache : Option Bool := none
  useDiskCachePool : Option Bool := none
  volatileReadCache : Option Bool := none
  guidedReadCache : Option Bool := none
  defaultCacheMinAge : Option ℤ := none

def CacheConfig.fields (c : CacheConfig) : List Field :=
  [intField "cache_size" c.cacheSize,
    intField "cache_expiry" c.cacheExpiry,
    boolField "use_read_cache" c.useReadCache,
    boolField "use_disk_cache_pool" c.useDiskCachePool,
    boolField "volatile_read_cache" c.volatileReadCache,
    boolField "guided_read_cache" c.guidedReadCache,
    intField "default_cache_min_age" c.defaultCacheMinAge]

structure PiecesConfig where
  wholePiecesThreshold : Option ℤ := none
  prioritizePartialPieces : Option Bool := none
  maxOutRequestQueue : Option ℤ := none
  maxAllowedInRequestQueue : Option ℤ := none
  pieceTimeout : Option ℤ := none
  requestTimeout : Option ℤ := none
  predictivePieceAnnounce : Option ℤ := none
  maxSuggestPieces : Option ℤ := none
  dropSkippedRequests : Option Bool := none
  seedingPieceQuota : Option ℤ := none
  maxSparseRegions : Option ℤ := none

def PiecesConfig.fields (c : PiecesConfig) : List Field :=
  [intField "whole_pieces_threshold" c.wholePiecesThreshold,
    boolField "prioritize_partial_pieces" c.prioritizePartialPieces,
    intField "max_out_request_queue" c.maxOutRequestQueue,
    intField "max_allowed_in_request_queue" c.maxAllowedInRequestQueue,
    intField "piece_timeout" c.pieceTimeout,
    intField "request_timeout" c.requestTimeout,
    intField "predictive_piece_announce" c.predictivePieceAnnounce,
    intField "max_suggest_pieces" c.maxSuggestPieces,
    boolField "drop_skipped_requests" c.dropSkippedRequests,
    intField "seeding_piece_quota" c.seedingPieceQuota,
    intField "max_sparse_regions" c.maxSparseRegions]

structure TimeoutsConfig where
  peerTimeout : Option ℤ := none
  urlseedTimeout : Option ℤ := none
  urlseedPipelineSize : Option ℤ := none
  stopTrackerTimeout : Option ℤ := none
  trackerCompletionTimeout : Option ℤ := none
  trackerReceiveTimeout : Option ℤ := none
  inactivityTimeout : Option ℤ := none
  readTimeoutSecs : Option ℤ := none
  peerDiscoveryWaitSecs : Option ℤ := none
  peerWaitCapSecs : Option ℤ := none
  noSeederReadTimeoutSecs : Option ℤ := none

def TimeoutsConfig.fields (c : TimeoutsConfig) : List Field :=
  [intField "peer_timeout" c.peerTimeout,
    intField "urlseed_timeout" c.urlseedTimeout,
    intField "urlseed_pipeline_size" c.urlseedPipelineSize,
    intField "stop_tracker_timeout" c.stopTrackerTimeout,
    intField "tracker_completion_timeout" c.trackerCompletionTimeout,
    intField "tracker_receive_timeout" c.trackerReceiveTimeout,
    intField "inactivity_timeout" c.inactivityTimeout]

def maxLocalTimeoutSecs : ℤ := 86400

def checkTimeout (name : String) : Option ℤ → Except String Unit
  | none => .ok ()
  | some v =>
    if v > maxLocalTimeoutSecs then
      .error s!"[timeouts] {name} must be <= {maxLocalTimeoutSecs} seconds (one day), got {v}"
    else .ok ()

def TimeoutsConfig.validate (c : TimeoutsConfig) : Except String Unit := do
  checkTimeout "read_timeout_secs" c.readTimeoutSecs
  checkTimeout "peer_discovery_wait_secs" c.peerDiscoveryWaitSecs
  checkTimeout "peer_wait_cap_secs" c.peerWaitCapSecs
  checkTimeout "no_seeder_read_timeout_secs" c.noSeederReadTimeoutSecs

def resolvedTimeout (value : Option ℤ) : Option ℕ := (value.filter (0 < ·)).map Int.toNat

def TimeoutsConfig.resolvedReadTimeoutSecs (c : TimeoutsConfig) : ℕ :=
  (resolvedTimeout c.readTimeoutSecs).getD 60

def TimeoutsConfig.resolvedPeerDiscoveryWaitSecs (c : TimeoutsConfig) : ℕ :=
  (resolvedTimeout c.peerDiscoveryWaitSecs).getD 30

def TimeoutsConfig.resolvedPeerWaitCapSecs (c : TimeoutsConfig) : Option ℕ :=
  resolvedTimeout c.peerWaitCapSecs

def TimeoutsConfig.resolvedNoSeederReadTimeoutSecs (c : TimeoutsConfig) : ℕ :=
  (resolvedTimeout c.noSeederReadTimeoutSecs).getD 15

lemma TimeoutsConfig.resolvedReadTimeoutSecs_le {c : TimeoutsConfig} (h : c.validate = .ok ()) :
    c.resolvedReadTimeoutSecs ≤ 86400 := by
  have hcheck : checkTimeout "read_timeout_secs" c.readTimeoutSecs = .ok () := by
    unfold TimeoutsConfig.validate at h
    cases hread : checkTimeout "read_timeout_secs" c.readTimeoutSecs with
    | error e =>
      rw [hread] at h
      cases h
    | ok u => rfl
  unfold TimeoutsConfig.resolvedReadTimeoutSecs resolvedTimeout
  cases hvalue : c.readTimeoutSecs with
  | none => decide
  | some v =>
    rw [hvalue, checkTimeout] at hcheck
    split at hcheck
    · cases hcheck
    · next hle =>
      rw [maxLocalTimeoutSecs] at hle
      by_cases hpos : 0 < v
      · simp only [Option.filter, hpos, decide_true, if_true, map_some, getD_some]
        omega
      · simp [Option.filter, hpos]

structure ConcurrencyConfig where
  downloadWorkers : Option ℕ := none
  downloadQueueDepth : Option ℕ := none

def checkConcurrency (name : String) (max : ℕ) : Option ℕ → Except String Unit
  | none => .ok ()
  | some v =>
    if v > max then .error s!"[concurrency] {name} must be <= {max}, got {v}" else .ok ()

/-- `ConcurrencyConfig::validate`, with `MAX_DOWNLOAD_WORKERS` and `MAX_DOWNLOAD_QUEUE_DEPTH`. -/
def ConcurrencyConfig.validate (c : ConcurrencyConfig) : Except String Unit := do
  checkConcurrency "download_workers" 1024 c.downloadWorkers
  checkConcurrency "download_queue_depth" 65536 c.downloadQueueDepth

structure TrackerConfig where
  announceToAllTrackers : Option Bool := none
  announceToAllTiers : Option Bool := none
  preferUdpTrackers : Option Bool := none
  trackerBackoff : Option ℤ := none
  trackerMaximumResponseLength : Option ℤ := none
  minAnnounceInterval : Option ℤ := none
  udpTrackerTokenExpiry : Option ℤ := none

def TrackerConfig.fields (c : TrackerConfig) : List Field :=
  [boolField "announce_to_all_trackers" c.announceToAllTrackers,
    boolField "announce_to_all_tiers" c.announceToAllTiers,
    boolField "prefer_udp_trackers" c.preferUdpTrackers,
    intField "tracker_backoff" c.trackerBackoff,
    intField "tracker_maximum_response_length" c.trackerMaximumResponseLength,
    intField "min_announce_interval" c.minAnnounceInterval,
    intField "udp_tracker_token_expiry" c.udpTrackerTokenExpiry]

structure AlgorithmsConfig where
  chokingAlgorithm : Option ℤ := none
  seedChokingAlgorithm : Option ℤ := none
  mixedModeAlgorithm : Option ℤ := none
  suggestMode : Option ℤ := none

def AlgorithmsConfig.fields (c : AlgorithmsConfig) : List Field :=
  [intField "choking_algorithm" c.chokingAlgorithm,
    intField "seed_choking_algorithm" c.seedChokingAlgorithm,
    intField "mixed_mode_algorithm" c.mixedModeAlgorithm,
    intField "suggest_mode" c.suggestMode]

structure ActiveLimitsConfig where
  activeDownloads : Option ℤ := none
  activeSeeds : Option ℤ := none
  activeChecking : Option ℤ := none
  activeLimit : Option ℤ := none
  activeTrackerLimit : Option ℤ := none
  activeLsdLimit : Option ℤ := none
  activeDhtLimit : Option ℤ := none

def ActiveLimitsConfig.fields (c : ActiveLimitsConfig) : List Field :=
  [intField "active_downloads" c.activeDownloads,
    intField "active_seeds" c.activeSeeds,
    intField "active_checking" c.activeChecking,
    intField "active_limit" c.activeLimit,
    intField "active_tracker_limit" c.activeTrackerLimit,
    intField "active_lsd_limit" c.activeLsdLimit,
    intField "active_dht_limit" c.activeDhtLimit]

structure AutoManageConfig where
  autoManageInterval : Option ℤ := none
  autoManageStartup : Option ℤ := none
  autoManagePreferSeeds : Option Bool := none
  dontCountSlowTorrents : Option Bool := none
  shareRatioLimit : Option F64 := none
  seedTimeRatioLimit : Option F64 := none
  seedTimeLimit : Option ℤ := none

def AutoManageConfig.fields (c : AutoManageConfig) : List Field :=
  [intField "auto_manage_interval" c.autoManageInterval,
    intField "auto_manage_startup" c.autoManageStartup,
    boolField "auto_manage_prefer_seeds" c.autoManagePreferSeeds,
    boolField "dont_count_slow_torrents" c.dontCountSlowTorrents,
    floatField "share_ratio_limit" c.shareRatioLimit,
    floatField "seed_time_ratio_limit" c.seedTimeRatioLimit,
    intField "seed_time_limit" c.seedTimeLimit]

structure EncryptionConfig where
  encryptionPolicy : Option ℤ := none
  allowedEncryptionLevel : Option ℤ := none

def EncryptionConfig.fields (c : EncryptionConfig) : List Field :=
  [intField "encryption_policy" c.encryptionPolicy,
    intField "allowed_encryption_level" c.allowedEncryptionLevel]

structure ProxyConfig where
  host : Option Bytes := none
  port : Option ℤ := none
  proxyType : Option Bytes := none
  proxyHostnames : Option Bool := none
  proxyPeerConnections : Option Bool := none
  proxyTrackerConnections : Option Bool := none
  anonymousMode : Option Bool := none
  forceProxy : Option Bool := none

def ProxyConfig.fields (c : ProxyConfig) : List Field :=
  [strField "proxy_hostname" c.host,
    intField "proxy_port" c.port,
    strField "proxy_type" c.proxyType,
    boolField "proxy_hostnames" c.proxyHostnames,
    boolField "proxy_peer_connections" c.proxyPeerConnections,
    boolField "proxy_tracker_connections" c.proxyTrackerConnections,
    boolField "anonymous_mode" c.anonymousMode,
    boolField "force_proxy" c.forceProxy]

def legalProxyTypes : List String :=
  ["socks4", "socks5", "socks5_pw", "http", "http_pw", "i2p_proxy"]

def ProxyConfig.validate (build : Build) (c : ProxyConfig) : Except String Unit :=
  match c.proxyType with
  | none => .ok ()
  | some val =>
    if val = utf8 "i2p_proxy" ∧ build.i2pEnabled = false then
      .error ("i2p_proxy requires a libtorrent build with I2P support (TORRENT_USE_I2P=1); " ++
        "this build has I2P compiled out")
    else if val ∈ legalProxyTypes.map utf8 then .ok ()
    else
      .error ("[proxy] proxy_type must be one of " ++ ", ".intercalate legalProxyTypes ++
        ", got " ++ build.debugText val)

structure UserAgentConfig where
  userAgent : Option Bytes := none
  peerFingerprint : Option Bytes := none
  handshakeClientVersion : Option Bytes := none
  alwaysSendUserAgent : Option Bool := none

def UserAgentConfig.fields (c : UserAgentConfig) : List Field :=
  [strField "user_agent" c.userAgent,
    strField "peer_fingerprint" c.peerFingerprint,
    strField "handshake_client_version" c.handshakeClientVersion,
    boolField "always_send_user_agent" c.alwaysSendUserAgent]

structure AlertConfig where
  alertMask : Option ℤ := none
  alertQueueSize : Option ℤ := none

def AlertConfig.fields (c : AlertConfig) : List Field :=
  [intField "alert_mask" c.alertMask,
    intField "alert_queue_size" c.alertQueueSize]

structure PerformanceConfig where
  aioThreads : Option ℤ := none
  networkThreads : Option ℤ := none
  checkingMemUsage : Option ℤ := none
  tickInterval : Option ℤ := none
  sendBufferWatermark : Option ℤ := none
  sendBufferWatermarkFactor : Option ℤ := none
  sendBufferLowWatermark : Option ℤ := none
  recvSocketBufferSize : Option ℤ := none
  sendSocketBufferSize : Option ℤ := none
  optimisticDiskRetry : Option ℤ := none

def PerformanceConfig.fields (c : PerformanceConfig) : List Field :=
  [intField "aio_threads" c.aioThreads,
    intField "network_threads" c.networkThreads,
    intField "checking_mem_usage" c.checkingMemUsage,
    intField "tick_interval" c.tickInterval,
    intField "send_buffer_watermark" c.sendBufferWatermark,
    intField "send_buffer_watermark_factor" c.sendBufferWatermarkFactor,
    intField "send_buffer_low_watermark" c.sendBufferLowWatermark,
    intField "recv_socket_buffer_size" c.recvSocketBufferSize,
    intField "send_socket_buffer_size" c.sendSocketBufferSize,
    intField "optimistic_disk_retry" c.optimisticDiskRetry]

structure MiscConfig where
  ignoreResumeTimestamps : Option Bool := none
  noRecheckIncompleteResume : Option Bool := none
  disableHashChecks : Option Bool := none
  allowI2pMixed : Option Bool := none
  incomingStartsQueued : Option Bool := none
  banWebSeeds : Option Bool := none
  reportWebSeedDownloads : Option Bool := none
  numOptimisticUnchokeSlots : Option ℤ := none
  maxFailcount : Option ℤ := none
  maxRejects : Option ℤ := none
  shareModeTarget : Option ℤ := none
  applyIpFilterToTrackers : Option Bool := none
  announceDoubleNat : Option Bool := none
  lockFiles : Option Bool := none
  localServiceAnnounceInterval : Option ℤ := none
  readJobEvery : Option ℤ := none
  strictSuperSeeding : Option Bool := none
  enableOsCache : Option Bool := none
  closeRedundantConnections : Option Bool := none

def MiscConfig.fields (c : MiscConfig) : List Field :=
  [boolField "ignore_resume_timestamps" c.ignoreResumeTimestamps,
    boolField "no_recheck_incomplete_resume" c.noRecheckIncompleteResume,
    boolField "disable_hash_checks" c.disableHashChecks,
    boolField "allow_i2p_mixed" c.allowI2pMixed,
    boolField "incoming_starts_queued" c.incomingStartsQueued,
    boolField "ban_web_seeds" c.banWebSeeds,
    boolField "report_web_seed_downloads" c.reportWebSeedDownloads,
    intField "num_optimistic_unchoke_slots" c.numOptimisticUnchokeSlots,
    intField "max_failcount" c.maxFailcount,
    intField "max_rejects" c.maxRejects,
    intField "share_mode_target" c.shareModeTarget,
    boolField "apply_ip_filter_to_trackers" c.applyIpFilterToTrackers,
    boolField "announce_double_nat" c.announceDoubleNat,
    boolField "lock_files" c.lockFiles,
    intField "local_service_announce_interval" c.localServiceAnnounceInterval,
    intField "read_job_every" c.readJobEvery,
    boolField "strict_super_seeding" c.strictSuperSeeding,
    boolField "enable_os_cache" c.enableOsCache,
    boolField "close_redundant_connections" c.closeRedundantConnections]

/-! ### The whole configuration -/

structure TorrentfsConfig where
  connections : ConnectionsConfig := {}
  dht : DhtConfig := {}
  localDiscovery : LocalDiscoveryConfig := {}
  rateLimits : RateLimitsConfig := {}
  diskIo : DiskIoConfig := {}
  cache : CacheConfig := {}
  concurrency : ConcurrencyConfig := {}
  pieces : PiecesConfig := {}
  timeouts : TimeoutsConfig := {}
  tracker : TrackerConfig := {}
  algorithms : AlgorithmsConfig := {}
  activeLimits : ActiveLimitsConfig := {}
  autoManage : AutoManageConfig := {}
  encryption : EncryptionConfig := {}
  proxy : ProxyConfig := {}
  userAgent : UserAgentConfig := {}
  alert : AlertConfig := {}
  performance : PerformanceConfig := {}
  misc : MiscConfig := {}

/-- The errors of `from_file` after the file has been parsed. -/
inductive ConfigError
  | parseError (message : String)
  | configError (message : String)
deriving DecidableEq

def checkEnum (field allowed : String) (values : List ℤ) : Option ℤ → Except String Unit
  | none => .ok ()
  | some n =>
    if n ∈ values then .ok ()
    else .error ("enum value for `" ++ field ++ "` out of range: legal values are \x7b" ++
      allowed ++ "\x7d")

namespace TorrentfsConfig

variable (build : Build) (c : TorrentfsConfig)

def validate : Except ConfigError Unit :=
  let checks : Except String Unit := do
    c.connections.validate
    c.rateLimits.validate
    c.timeouts.validate
    c.concurrency.validate
    c.proxy.validate build
  checks.mapError fun message => .parseError ("Invalid config value: " ++ message)

def validateEnumRanges : Except ConfigError Unit :=
  let checks : Except String Unit := do
    checkEnum "algorithms.choking_algorithm" "0, 2, 3" [0, 2, 3] c.algorithms.chokingAlgorithm
    checkEnum "algorithms.seed_choking_algorithm" "0, 1, 2" [0, 1, 2]
      c.algorithms.seedChokingAlgorithm
    checkEnum "algorithms.mixed_mode_algorithm" "0, 1" [0, 1] c.algorithms.mixedModeAlgorithm
    checkEnum "algorithms.suggest_mode" "0, 1" [0, 1] c.algorithms.suggestMode
    checkEnum "encryption.encryption_policy" "0, 1, 2" [0, 1, 2] c.encryption.encryptionPolicy
    checkEnum "encryption.allowed_encryption_level" "1, 2, 3" [1, 2, 3]
      c.encryption.allowedEncryptionLevel
  checks.mapError .configError

def fromFile : Except ConfigError TorrentfsConfig := do
  c.validate build
  c.validateEnumRanges
  return c

def fields : List Field :=
  c.connections.fields ++ c.dht.fields ++ c.localDiscovery.fields ++ c.rateLimits.fields ++
    c.diskIo.fields ++ c.cache.fields ++ c.pieces.fields ++ c.timeouts.fields ++
    c.tracker.fields ++ c.algorithms.fields ++ c.activeLimits.fields ++ c.autoManage.fields ++
    c.encryption.fields ++ c.proxy.fields ++ c.userAgent.fields ++ c.alert.fields ++
    c.performance.fields ++ c.misc.fields

def settings : Object := writeJson c.fields Object.empty

def toSettingsJson : Bytes := objectText c.settings

end TorrentfsConfig

lemma mem_writeJson {fields : List Field} {map : Object} {m : Bytes × Value}
    (h : m ∈ (writeJson fields map).members) :
    m ∈ map.members ∨ ∃ field ∈ fields, field.2 = some m.2 ∧ m.1 = utf8 field.1 := by
  induction fields generalizing map with
  | nil => exact .inl h
  | cons field fields ih =>
    rw [writeJson, List.foldl_cons] at h
    rcases ih h with hmap | ⟨f, hf, hval⟩
    · cases hfield : field.2 with
      | none =>
        rw [hfield] at hmap
        exact .inl hmap
      | some v =>
        rw [hfield] at hmap
        rcases Object.mem_insertMember hmap with rfl | hmap
        · exact .inr ⟨field, .head _, hfield, rfl⟩
        · exact .inl hmap
    · exact .inr ⟨f, .tail _ hf, hval⟩

lemma mapError_eq_ok {ε ε' α : Type} {f : ε → ε'} {x : Except ε α} {a : α} :
    x.mapError f = .ok a ↔ ∃ b, x = .ok b ∧ b = a := by
  cases x <;> simp [Except.mapError]

lemma proxyType_of_fromFile {build : Build} {c c' : TorrentfsConfig}
    (h : c.fromFile build = .ok c') {val : Bytes} (hval : c.proxy.proxyType = some val) :
    val ∈ legalProxyTypes.map utf8 ∧ ¬(val = utf8 "i2p_proxy" ∧ build.i2pEnabled = false) := by
  have hproxy : c.proxy.validate build = .ok () := by
    simp only [TorrentfsConfig.fromFile, Commits.bind_eq_ok] at h
    obtain ⟨_, hvalidate, -⟩ := h
    obtain ⟨_, hchecks, -⟩ := mapError_eq_ok.mp hvalidate
    simp only [Commits.bind_eq_ok] at hchecks
    obtain ⟨_, -, _, -, _, -, _, -, hproxy⟩ := hchecks
    exact hproxy
  rw [ProxyConfig.validate, hval] at hproxy
  dsimp only at hproxy
  split_ifs at hproxy with hi2p hlegal
  exact ⟨hlegal, hi2p⟩

end TorrentFs.Config
