import TorrentFs.Wrapper.JsonScan

/-!
# Settings packs

The wrapper applies the settings it is given as JSON key by key: each key it knows sets one
setting of a libtorrent settings pack, other keys are ignored.
-/

namespace TorrentFs.Wrapper

open Json List

/-! ### The settings -/

inductive StrSetting
  | listenInterfaces
  | outgoingInterfaces
  | userAgent
  | peerFingerprint
  | handshakeClientVersion
  | proxyHostname
deriving DecidableEq

/-- The settings of libtorrent that hold an integer. -/
inductive IntSetting
  | connectionSpeed
  | peerConnectTimeout
  | listenQueueSize
  | minReconnectTime
  | maxPeerlistSize
  | maxPausedPeerlistSize
  | dhtAnnounceInterval
  | dhtMaxDhtItems
  | activeDhtLimit
  | downloadRateLimit
  | uploadRateLimit
  | diskIoWriteMode
  | diskIoReadMode
  | filePoolSize
  | maxQueuedDiskBytes
  | wholePiecesThreshold
  | pieceTimeout
  | requestTimeout
  | maxOutRequestQueue
  | maxAllowedInRequestQueue
  | maxSuggestPieces
  | seedingPieceQuota
  | peerTimeout
  | urlseedTimeout
  | urlseedPipelineSize
  | stopTrackerTimeout
  | trackerCompletionTimeout
  | trackerReceiveTimeout
  | inactivityTimeout
  | trackerBackoff
  | trackerMaximumResponseLength
  | minAnnounceInterval
  | udpTrackerTokenExpiry
  | chokingAlgorithm
  | seedChokingAlgorithm
  | mixedModeAlgorithm
  | suggestMode
  | activeDownloads
  | activeSeeds
  | activeChecking
  | activeLimit
  | activeTrackerLimit
  | activeLsdLimit
  | autoManageInterval
  | autoManageStartup
  | shareRatioLimit
  | seedTimeRatioLimit
  | seedTimeLimit
  | outEncPolicy
  | allowedEncLevel
  | proxyPort
  | alertMask
  | alertQueueSize
  | aioThreads
  | checkingMemUsage
  | tickInterval
  | sendBufferWatermark
  | sendBufferWatermarkFactor
  | sendBufferLowWatermark
  | recvSocketBufferSize
  | sendSocketBufferSize
  | optimisticDiskRetry
  | numOptimisticUnchokeSlots
  | maxFailcount
  | maxRejects
  | shareModeTarget
  | localServiceAnnounceInterval
  | proxyType
deriving DecidableEq

/-- The settings of libtorrent that hold a truth value. -/
inductive BoolSetting
  | smoothConnects
  | allowMultipleConnectionsPerIp
  | enableDht
  | enableLsd
  | enableUpnp
  | enableNatpmp
  | rateLimitIpOverhead
  | noAtimeStorage
  | prioritizePartialPieces
  | announceToAllTrackers
  | announceToAllTiers
  | preferUdpTrackers
  | autoManagePreferSeeds
  | dontCountSlowTorrents
  | proxyHostnames
  | proxyPeerConnections
  | proxyTrackerConnections
  | anonymousMode
  | alwaysSendUserAgent
  | noRecheckIncompleteResume
  | disableHashChecks
  | allowI2pMixed
  | banWebSeeds
  | reportWebSeedDownloads
  | applyIpFilterToTrackers
  | enableOsCache
  | closeRedundantConnections
deriving DecidableEq

inductive Setting
  | str (s : StrSetting)
  | int (s : IntSetting)
  | bool (s : BoolSetting)
deriving DecidableEq

inductive PackValue
  | str (s : Bytes)
  | int (z : ℤ)
  | bool (b : Bool)
deriving DecidableEq

abbrev Pack := Setting → Option PackValue

def Pack.set (pack : Pack) (s : Setting) (v : PackValue) : Pack :=
  fun t => if t = s then some v else pack t

/-! ### The keys -/

def strSettings : List (String × StrSetting) :=
  [("listen_interfaces", .listenInterfaces),
    ("outgoing_interfaces", .outgoingInterfaces),
    ("user_agent", .userAgent),
    ("peer_fingerprint", .peerFingerprint),
    ("handshake_client_version", .handshakeClientVersion),
    ("proxy_hostname", .proxyHostname),
    ("host", .proxyHostname)]

def intSettings : List (String × Option IntSetting) :=
  [("max_connections", none),
    ("max_uploads", none),
    ("connection_speed", some .connectionSpeed),
    ("peer_connect_timeout", some .peerConnectTimeout),
    ("listen_queue_size", some .listenQueueSize),
    ("min_reconnect_time", some .minReconnectTime),
    ("max_peerlist_size", some .maxPeerlistSize),
    ("max_paused_peerlist_size", some .maxPausedPeerlistSize),
    ("dht_announce_interval", some .dhtAnnounceInterval),
    ("max_dht_items", some .dhtMaxDhtItems),
    ("max_active_dht_limit", some .activeDhtLimit),
    ("download_rate_limit", some .downloadRateLimit),
    ("upload_rate_limit", some .uploadRateLimit),
    ("disk_io_write_mode", some .diskIoWriteMode),
    ("disk_io_read_mode", some .diskIoReadMode),
    ("file_pool_size", some .filePoolSize),
    ("max_queued_disk_bytes", some .maxQueuedDiskBytes),
    ("max_queued_disk_bytes_low_watermark", none),
    ("cache_size", none),
    ("cache_expiry", none),
    ("default_cache_min_age", none),
    ("whole_pieces_threshold", some .wholePiecesThreshold),
    ("piece_timeout", some .pieceTimeout),
    ("request_timeout", some .requestTimeout),
    ("max_out_request_queue", some .maxOutRequestQueue),
    ("max_allowed_in_request_queue", some .maxAllowedInRequestQueue),
    ("max_suggest_pieces", some .maxSuggestPieces),
    ("seeding_piece_quota", some .seedingPieceQuota),
    ("max_sparse_regions", none),
    ("peer_timeout", some .peerTimeout),
    ("urlseed_timeout", some .urlseedTimeout),
    ("urlseed_pipeline_size", some .urlseedPipelineSize),
    ("stop_tracker_timeout", some .stopTrackerTimeout),
    ("tracker_completion_timeout", some .trackerCompletionTimeout),
    ("tracker_receive_timeout", some .trackerReceiveTimeout),
    ("inactivity_timeout", some .inactivityTimeout),
    ("tracker_backoff", some .trackerBackoff),
    ("tracker_maximum_response_length", some .trackerMaximumResponseLength),
    ("min_announce_interval", some .minAnnounceInterval),
    ("udp_tracker_token_expiry", some .udpTrackerTokenExpiry),
    ("choking_algorithm", some .chokingAlgorithm),
    ("seed_choking_algorithm", some .seedChokingAlgorithm),
    ("mixed_mode_algorithm", some .mixedModeAlgorithm),
    ("suggest_mode", some .suggestMode),
    ("active_downloads", some .activeDownloads),
    ("active_seeds", some .activeSeeds),
    ("active_checking", some .activeChecking),
    ("active_limit", some .activeLimit),
    ("active_tracker_limit", some .activeTrackerLimit),
    ("active_lsd_limit", some .activeLsdLimit),
    ("active_dht_limit", some .activeDhtLimit),
    ("auto_manage_interval", some .autoManageInterval),
    ("auto_manage_startup", some .autoManageStartup),
    ("share_ratio_limit", some .shareRatioLimit),
    ("seed_time_ratio_limit", some .seedTimeRatioLimit),
    ("seed_time_limit", some .seedTimeLimit),
    ("encryption_policy", some .outEncPolicy),
    ("allowed_encryption_level", some .allowedEncLevel),
    ("proxy_port", some .proxyPort),
    ("port", some .proxyPort),
    ("alert_mask", some .alertMask),
    ("alert_queue_size", some .alertQueueSize),
    ("aio_threads", some .aioThreads),
    ("network_threads", none),
    ("checking_mem_usage", some .checkingMemUsage),
    ("tick_interval", some .tickInterval),
    ("send_buffer_watermark", some .sendBufferWatermark),
    ("send_buffer_watermark_factor", some .sendBufferWatermarkFactor),
    ("send_buffer_low_watermark", some .sendBufferLowWatermark),
    ("recv_socket_buffer_size", some .recvSocketBufferSize),
    ("send_socket_buffer_size", some .sendSocketBufferSize),
    ("optimistic_disk_retry", some .optimisticDiskRetry),
    ("num_optimistic_unchoke_slots", some .numOptimisticUnchokeSlots),
    ("max_failcount", some .maxFailcount),
    ("max_rejects", some .maxRejects),
    ("share_mode_target", some .shareModeTarget),
    ("local_service_announce_interval", some .localServiceAnnounceInterval),
    ("read_job_every", none)]

def boolSettings : List (String × Option BoolSetting) :=
  [("smooth_connects", some .smoothConnects),
    ("allow_multiple_connections_per_ip", some .allowMultipleConnectionsPerIp),
    ("enable_dht", some .enableDht),
    ("enable_lsd", some .enableLsd),
    ("enable_upnp", some .enableUpnp),
    ("enable_natpmp", some .enableNatpmp),
    ("rate_limit_utp", none),
    ("rate_limit_ip_overhead", some .rateLimitIpOverhead),
    ("use_disk_read_ahead", none),
    ("lock_disk_cache", none),
    ("no_atime_storage", some .noAtimeStorage),
    ("low_prio_disk", none),
    ("use_read_cache", none),
    ("use_disk_cache_pool", none),
    ("volatile_read_cache", none),
    ("guided_read_cache", none),
    ("prioritize_partial_pieces", some .prioritizePartialPieces),
    ("drop_skipped_requests", none),
    ("announce_to_all_trackers", some .announceToAllTrackers),
    ("announce_to_all_tiers", some .announceToAllTiers),
    ("prefer_udp_trackers", some .preferUdpTrackers),
    ("auto_manage_prefer_seeds", some .autoManagePreferSeeds),
    ("dont_count_slow_torrents", some .dontCountSlowTorrents),
    ("proxy_hostnames", some .proxyHostnames),
    ("proxy_peer_connections", some .proxyPeerConnections),
    ("proxy_tracker_connections", some .proxyTrackerConnections),
    ("anonymous_mode", some .anonymousMode),
    ("force_proxy", none),
    ("always_send_user_agent", some .alwaysSendUserAgent),
    ("ignore_resume_timestamps", none),
    ("no_recheck_incomplete_resume", some .noRecheckIncompleteResume),
    ("disable_hash_checks", some .disableHashChecks),
    ("allow_i2p_mixed", some .allowI2pMixed),
    ("incoming_starts_queued", none),
    ("ban_web_seeds", some .banWebSeeds),
    ("report_web_seed_downloads", some .reportWebSeedDownloads),
    ("apply_ip_filter_to_trackers", some .applyIpFilterToTrackers),
    ("announce_double_nat", none),
    ("lock_files", none),
    ("strict_super_seeding", none),
    ("enable_os_cache", some .enableOsCache),
    ("close_redundant_connections", some .closeRedundantConnections)]

def lookup {α : Type} (table : List (String × α)) (key : Bytes) : Option α :=
  (table.find? fun entry => utf8 entry.1 = key).map Prod.snd

def proxyTypeFromString (i2p : Bool) (val : Bytes) : Option ℤ :=
  lookup ([("none", 0), ("socks4", 1), ("socks5", 2), ("socks5_pw", 3), ("http", 4),
    ("http_pw", 5)] ++ if i2p then [("i2p_proxy", 6)] else []) val

def applyStrSetting (i2p : Bool) (pack : Pack) (key val : Bytes) : Pack :=
  match lookup strSettings key with
  | some s => pack.set (.str s) (.str val)
  | none =>
    if key = utf8 "proxy_type" then
      match proxyTypeFromString i2p val with
      | some z => pack.set (.int .proxyType) (.int z)
      | none => pack
    else pack

def applyIntSetting (pack : Pack) (key : Bytes) (val : ℤ) : Pack :=
  match (lookup intSettings key).join with
  | some s => pack.set (.int s) (.int val)
  | none => pack

def applyBoolSetting (pack : Pack) (key : Bytes) (val : Bool) : Pack :=
  match (lookup boolSettings key).join with
  | some s => pack.set (.bool s) (.bool val)
  | none => pack

/-! ### The loop -/

def applyValue (i2p : Bool) (key p : Bytes) (pack : Pack) : Bytes × Pack :=
  let b := p.headD 0
  if b = byte '"' then
    ((parseJsonString p).2, applyStrSetting i2p pack key (parseJsonString p).1)
  else if b = byte 't' || b = byte 'f' then
    (p.dropWhile fun c => !(c = byte ',' || c = byte '\x7d' || isSpace c),
      applyBoolSetting pack key (b = byte 't'))
  else if b = byte '-' || isDigit b then
    -- the cast to int keeps the low 32 bits
    ((parseJsonInt p).2, applyIntSetting pack key ((parseJsonInt p).1.bmod (2 ^ 32)))
  else (p.dropWhile fun c => !(c = byte ',' || c = byte '\x7d'), pack)

def settingsStep (i2p : Bool) (p : Bytes) (pack : Pack) : Option (Bytes × Pack) :=
  match skipJsonWs p with
  | [] => none
  | b :: rest =>
    if b = byte '\x7d' then none
    else if b = byte ',' then some (rest, pack)
    else if b = byte '"' then
      let key := parseJsonString (b :: rest)
      match skipJsonWs key.2 with
      | [] => none
      | c :: p =>
        if c = byte ':' then some (applyValue i2p key.1 (skipJsonWs p) pack) else none
    else none

def settingsLoop (i2p : Bool) : ℕ → Bytes → Pack → Pack
  | 0, _, pack => pack
  | n + 1, p, pack =>
    if p = [] then pack
    else
      match settingsStep i2p p pack with
      | none => pack
      | some (p, pack) => settingsLoop i2p n p pack

def scan (i2p : Bool) (p : Bytes) (pack : Pack) : Pack := settingsLoop i2p p.length p pack

def buildSettingsPack (i2p : Bool) (settingsJson : Bytes) : Pack :=
  match skipJsonWs settingsJson with
  | [] => fun _ => none
  | b :: p => if b = byte '\x7b' then scan i2p p (fun _ => none) else fun _ => none

lemma settingsStep_of_key {i2p : Bool} {p rest key q : Bytes} {pack : Pack}
    (hskip : skipJsonWs p = byte '"' :: rest)
    (hkey : parseJsonString (byte '"' :: rest) = (key, byte ':' :: q)) :
    settingsStep i2p p pack = some (applyValue i2p key (skipJsonWs q) pack) := by
  have hbrace : byte '"' ≠ byte '\x7d' := by decide
  have hcomma : byte '"' ≠ byte ',' := by decide
  have hcolon : skipJsonWs (byte ':' :: q) = byte ':' :: q := rfl
  simp only [settingsStep, hskip, if_neg hbrace, if_neg hcomma, if_true, hkey, hcolon]

/-! ### The loop ends -/

lemma length_applyValue_le (i2p : Bool) (key p : Bytes) (pack : Pack) :
    (applyValue i2p key p pack).1.length ≤ p.length := by
  rw [applyValue]
  split_ifs
  · exact (length_parseStringLoop_le _ _).trans (by simp)
  · exact (dropWhile_suffix _).length_le
  · exact length_parseJsonInt_le p
  · exact (dropWhile_suffix _).length_le

lemma length_settingsStep {i2p : Bool} {p p' : Bytes} {pack pack' : Pack}
    (h : settingsStep i2p p pack = some (p', pack')) : p'.length < p.length := by
  have hskip := length_skipJsonWs_le p
  rw [settingsStep] at h
  cases hp : skipJsonWs p with
  | nil => simp [hp] at h
  | cons b rest =>
    rw [hp] at h hskip
    dsimp only at h
    split_ifs at h with hbrace hcomma hquote
    · cases h
      exact hskip
    · cases hcolon : skipJsonWs (parseJsonString (b :: rest)).2 with
      | nil => simp [hcolon] at h
      | cons c q =>
        rw [hcolon] at h
        dsimp only at h
        split_ifs at h with hc
        have hkey := length_skipJsonWs_le (parseJsonString (b :: rest)).2
        have hstring : (parseJsonString (b :: rest)).2.length ≤ rest.length :=
          length_parseStringLoop_le _ _
        have hvalue := length_applyValue_le i2p (parseJsonString (b :: rest)).1
          (skipJsonWs q) pack
        have hws := length_skipJsonWs_le q
        rw [Option.some.inj h] at hvalue
        replace hvalue : p'.length ≤ (skipJsonWs q).length := hvalue
        rw [hcolon] at hkey
        simp only [length_cons] at hkey hskip
        omega

lemma settingsLoop_of_le (i2p : Bool) {n m : ℕ} {p : Bytes} (pack : Pack) (hn : p.length ≤ n)
    (hm : p.length ≤ m) : settingsLoop i2p n p pack = settingsLoop i2p m p pack := by
  induction n generalizing m p pack with
  | zero =>
    have hp : p = [] := List.length_eq_zero_iff.mp (by omega)
    cases m <;> simp [settingsLoop, hp]
  | succ n ih =>
    cases m with
    | zero =>
      have hp : p = [] := List.length_eq_zero_iff.mp (by omega)
      simp [settingsLoop, hp]
    | succ m =>
      rw [settingsLoop, settingsLoop]
      cases hstep : settingsStep i2p p pack with
      | none => rfl
      | some r =>
        obtain ⟨p', pack'⟩ := r
        have hlt := length_settingsStep hstep
        dsimp only
        rw [ih (m := m) pack' (by omega) (by omega)]

lemma scan_eq (i2p : Bool) (p : Bytes) (pack : Pack) :
    scan i2p p pack = if p = [] then pack else
      match settingsStep i2p p pack with
      | none => pack
      | some (p, pack) => scan i2p p pack := by
  cases hp : p with
  | nil => rfl
  | cons b rest =>
    rw [← hp, scan, hp, length_cons, settingsLoop, ← hp]
    cases hstep : settingsStep i2p p pack with
    | none => rfl
    | some r =>
      have hlt := length_settingsStep hstep
      rw [hp, length_cons] at hlt
      simp only [hp, cons_ne_nil, if_false]
      exact settingsLoop_of_le i2p r.2 (by omega) (Nat.le_refl _)

end TorrentFs.Wrapper
