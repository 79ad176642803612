import RecordRelay.Dispatch.Client
import RecordRelay.Text.Blank
import RecordRelay.Text.Duration

/-! What a node is told about its peers, about the sizes of its batches, queues and buffers, and
about the way it talks to others. Settings are checked before a node starts; the first rule they
break is the one that is reported. -/
namespace RecordRelay

inductive DiscoveryMode where
  /-- The node is alone. -/
  | localNode
  /-- The peers are listed in the settings. -/
  | static
  | dns
  | awsCloudMap
  deriving DecidableEq, Repr, Inhabited

namespace DiscoveryMode

def name : DiscoveryMode → String
  | localNode => "local_node"
  | static => "static"
  | dns => "dns"
  | awsCloudMap => "aws_cloud_map"

def all : List DiscoveryMode := [localNode, static, dns, awsCloudMap]

def ofName? (name : String) : Option DiscoveryMode := all.find? fun mode => mode.name = name

end DiscoveryMode

/-- How peers prove who they are. -/
inductive Authentication where
  | unauthenticated
  | mutualTls
  deriving DecidableEq, Repr, Inhabited

namespace Authentication

def name : Authentication → String
  | unauthenticated => "unauthenticated"
  | mutualTls => "mutual_tls"

def all : List Authentication := [unauthenticated, mutualTls]

def ofName? (name : String) : Option Authentication := all.find? fun way => way.name = name

def render : Authentication → String
  | unauthenticated => "Unauthenticated"
  | mutualTls => "MutualTls"

end Authentication

/-- The settings of a node. Timeouts and delays are in milliseconds. -/
structure Settings where
  port : UInt16
  requestTimeout : UInt64
  discoveryMode : DiscoveryMode
  /-- The peers of a node whose mode is `static`. -/
  staticEndpoints : List String
  domainName : Option String
  awsCloudMapNamespaceName : Option String
  awsCloudMapServiceName : Option String
  awsRegion : Option String
  /-- The number of records that travel together. -/
  batchSize : UInt64
  /-- The number of batches that a batching queue has room for. -/
  forwardingBatchQueueDepth : UInt64
  /-- The number of records that a receive buffer has room for. -/
  bufferSize : UInt64
  /-- The number of workers that send batches. -/
  clientThreadCount : UInt64
  /-- The number of batches that may wait for a worker. -/
  maxPendingRequests : UInt64
  receivePollDelay : UInt64
  /-- How long a batch that could not be sent may wait for room in the receive buffer. -/
  localWriteTimeout : UInt64
  checkpointTimeout : UInt64
  ssl : Bool
  sslCertificateFile : Option String
  sslKeyFile : Option String
  useAcmCertificateForSsl : Bool
  acmCertificateArn : Option String
  acmPrivateKeyPassword : Option String
  acmCertificateTimeout : UInt64
  authentication : Authentication
  deriving Inhabited

inductive SettingsError where
  /-- The file with the settings cannot be read. -/
  | unreadable
  /-- The text is not a document of settings. -/
  | malformed
  /-- A size is zero. -/
  | notPositive (field : String)
  | bufferSmallerThanBatch (bufferSize batchSize : UInt64)
  /-- A field that another setting asks for is absent or blank. -/
  | missingField (field reason : String)
  | mutualTlsWithoutSsl
  deriving DecidableEq, Repr

def SettingsError.message : SettingsError → String
  | unreadable => "failed to read configuration file"
  | malformed => "failed to parse configuration"
  | notPositive field => s!"'{field}' must be greater than zero"
  | bufferSmallerThanBatch bufferSize batchSize =>
    s!"buffer_size ({bufferSize.toNat}) must be at least batch_size ({batchSize.toNat})"
  | missingField field reason => s!"'{field}' is required when {reason}"
  | mutualTlsWithoutSsl => "mutual TLS authentication requires ssl to be enabled"

namespace Settings

/-- The settings that hold where nothing else is said. -/
def standard : Settings where
  port := 4994
  requestTimeout := 10000
  discoveryMode := .localNode
  staticEndpoints := []
  domainName := none
  awsCloudMapNamespaceName := none
  awsCloudMapServiceName := none
  awsRegion := none
  batchSize := 48
  forwardingBatchQueueDepth := 1
  bufferSize := 512
  clientThreadCount := 200
  maxPendingRequests := 1024
  receivePollDelay := 100
  localWriteTimeout := 500
  checkpointTimeout := 30000
  ssl := true
  sslCertificateFile := none
  sslKeyFile := none
  useAcmCertificateForSsl := false
  acmCertificateArn := none
  acmPrivateKeyPassword := none
  acmCertificateTimeout := 120000
  authentication := .unauthenticated

/-- The sizes that have to be greater than zero, in the order in which they are checked. -/
def sizes (settings : Settings) : List (String × UInt64) :=
  [("batch_size", settings.batchSize),
    ("forwarding_batch_queue_depth", settings.forwardingBatchQueueDepth),
    ("buffer_size", settings.bufferSize),
    ("client_thread_count", settings.clientThreadCount),
    ("max_pending_requests", settings.maxPendingRequests)]

/-- The fields that the discovery mode asks for. -/
def discoveryFields (settings : Settings) : List (String × Option String) :=
  match settings.discoveryMode with
  | .localNode | .static => []
  | .dns => [("domain_name", settings.domainName)]
  | .awsCloudMap =>
    [("aws_cloud_map_namespace_name", settings.awsCloudMapNamespaceName),
      ("aws_cloud_map_service_name", settings.awsCloudMapServiceName),
      ("aws_region", settings.awsRegion)]

/-- The fields that encryption asks for, with the reason. -/
def sslFields (settings : Settings) : List (String × Option String) × String :=
  if !settings.ssl then ([], "")
  else if settings.useAcmCertificateForSsl then
    ([("acm_certificate_arn", settings.acmCertificateArn), ("aws_region", settings.awsRegion)],
      "use_acm_certificate_for_ssl is enabled")
  else
    ([("ssl_certificate_file", settings.sslCertificateFile),
        ("ssl_key_file", settings.sslKeyFile)],
      "ssl is enabled without ACM")

/-- A text is given when it is there and not blank. -/
def isGiven : Option String → Bool
  | some text => !(Text.trim text).isEmpty
  | none => false

def require (reason : String) (fields : List (String × Option String)) :
    Except SettingsError Unit :=
  match fields.find? fun field => !isGiven field.2 with
  | some (field, _) => .error (.missingField field reason)
  | none => .ok ()

/-- Checks settings: that sizes are positive, that the buffer has room for a batch, that the fields
which other settings ask for are given and that peers prove who they are only where they can. -/
def validate (settings : Settings) : Except SettingsError Unit := do
  match settings.sizes.find? fun size => size.2 = 0 with
  | some (field, _) => throw (.notPositive field)
  | none => pure ()
  if settings.bufferSize < settings.batchSize then
    throw (.bufferSmallerThanBatch settings.bufferSize settings.batchSize)
  require s!"discovery_mode is {settings.discoveryMode.name}" settings.discoveryFields
  require settings.sslFields.2 settings.sslFields.1
  if settings.authentication = .mutualTls && !settings.ssl then throw .mutualTlsWithoutSsl

/-- The number of records that each batching queue has room for. There is none if 64 bits cannot say
it; the program stops where it is asked for then. -/
def batchingQueueCapacity? (settings : Settings) : Option UInt64 :=
  if settings.batchSize.toNat * settings.forwardingBatchQueueDepth.toNat < UInt64.size then
    some (settings.batchSize * settings.forwardingBatchQueueDepth)
  else none

/-- Whether there can be other nodes: a list of one endpoint holds this node only. -/
def arePeersConfigured (settings : Settings) : Bool :=
  match settings.discoveryMode with
  | .localNode => false
  | .static => 1 < settings.staticEndpoints.length
  | .dns | .awsCloudMap => true

/-- The place where a peer takes batches. -/
def peerUri (settings : Settings) (address : String) : String :=
  let scheme := if settings.ssl then "https" else "http"
  s!"{scheme}://{address}:{settings.port.toNat}{forwardingPath}"

/-- How long a peer may take to find room for a batch. -/
def requestPatience (settings : Settings) : Nanoseconds :=
  Text.ofMilliseconds settings.requestTimeout.toNat

/-- How long a batch that could not be sent may wait for room here. -/
def localWritePatience (settings : Settings) : Nanoseconds :=
  Text.ofMilliseconds settings.localWriteTimeout.toNat

/-- How long a read of a receive buffer may stay unreleased. -/
def checkpointPatience (settings : Settings) : Nanoseconds :=
  Text.ofMilliseconds settings.checkpointTimeout.toNat

end Settings

end RecordRelay
