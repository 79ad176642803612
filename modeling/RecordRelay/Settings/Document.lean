import RecordRelay.Settings
import RecordRelay.Yaml.Node

/-! Settings are written as a mapping from the names of fields to their values. Fields that are not
written keep their standard value; a field that is not known or is written twice makes the document
malformed. Truth values and numbers are written plainly; every scalar is a text. -/
namespace RecordRelay.Settings

/-- The tag of a standard kind of value. -/
def standardTag (kind : String) : String := "tag:yaml.org,2002:" ++ kind

/-- The text of a scalar that may write a truth value or a number: a plain one, or a literal block
whose tag says so. -/
def bareText? (kind : String) : Yaml.Node → Option String
  | .scalar _ tag style text =>
    if style = .plain || (style = .literal && tag = some (standardTag kind)) then some text
    else none
  | _ => none

def truth? (node : Yaml.Node) : Option Bool :=
  match bareText? "bool" node with
  | some "true" | some "True" | some "TRUE" => some true
  | some "false" | some "False" | some "FALSE" => some false
  | _ => none

/-- A number in one of the bases with a mark in front. -/
def markedNumber? : List Char → Option Nat
  | '0' :: 'x' :: digits => Text.number? 16 digits
  | '0' :: 'o' :: digits => Text.number? 8 digits
  | '0' :: 'b' :: digits => Text.number? 2 digits
  | _ => none

/-- A decimal number. Zeros in front make it a mere text. -/
def decimalNumber? (digits : List Char) : Option Nat :=
  if 1 < digits.length && digits.head? = some '0' then none else Text.number? 10 digits

/-- A number that is not negative, with or without a plus in front. -/
def number? (node : Yaml.Node) : Option Nat := do
  let digits := match (← bareText? "int" node).toList with
    | '+' :: rest => rest
    | cs => cs
  (markedNumber? digits).or (decimalNumber? digits)

def number16? (node : Yaml.Node) : Option UInt16 :=
  ((number? node).filter (· < UInt16.size)).map Nat.toUInt16

def number64? (node : Yaml.Node) : Option UInt64 :=
  ((number? node).filter (· < UInt64.size)).map Nat.toUInt64

def text? : Yaml.Node → Option String
  | .scalar _ _ _ text => some text
  | _ => none

/-- A plain text that stands for nothing. -/
def isNull (text : String) : Bool := ["null", "Null", "NULL", "~"].contains text

/-- A text or nothing: a plain scalar that is empty or says so is nothing, unless it has a tag. The
tag of nothing has to be true. -/
def optionalText? : Yaml.Node → Option (Option String)
  | .scalar _ tag style text =>
    if style ≠ .plain then some (some text)
    else
      match tag with
      | none => some (if text.isEmpty || isNull text then none else some text)
      | some tag =>
        if tag ≠ standardTag "null" then some (some text)
        else if isNull text then some none
        else none
  | _ => none

/-- A plain scalar without text, which is an empty collection too. -/
def isEmptyScalar : Yaml.Node → Bool
  | .scalar _ _ style text => style = .plain && text.isEmpty
  | _ => false

def texts? (document : Yaml.Document) : Yaml.Node → Option (List String)
  | .sequence _ _ items => items.mapM fun item => (document.resolve item).bind text?
  | node => if isEmptyScalar node then some [] else none

/-- One of several choices: its name, or its name as a tag in front of nothing. -/
def choice? {α : Type} (ofName? : String → Option α) (node : Yaml.Node) : Option α :=
  match (node.tag?.map String.toList).getD [] with
  | '!' :: name =>
    match node with
    | .scalar _ _ .plain text =>
      if text.isEmpty || isNull text then ofName? (String.ofList name) else none
    | _ => none
  | _ => (text? node).bind ofName?

def setField (document : Yaml.Document) (settings : Settings) (name : String) (node : Yaml.Node) :
    Option Settings :=
  match name with
  | "port" => (number16? node).map fun port => { settings with port }
  | "request_timeout" =>
    (number64? node).map fun requestTimeout => { settings with requestTimeout }
  | "discovery_mode" =>
    (choice? DiscoveryMode.ofName? node).map fun discoveryMode => { settings with discoveryMode }
  | "static_endpoints" =>
    (texts? document node).map fun staticEndpoints => { settings with staticEndpoints }
  | "domain_name" => (optionalText? node).map fun domainName => { settings with domainName }
  | "aws_cloud_map_namespace_name" =>
    (optionalText? node).map fun awsCloudMapNamespaceName =>
      { settings with awsCloudMapNamespaceName }
  | "aws_cloud_map_service_name" =>
    (optionalText? node).map fun awsCloudMapServiceName => { settings with awsCloudMapServiceName }
  | "aws_region" => (optionalText? node).map fun awsRegion => { settings with awsRegion }
  | "batch_size" => (number64? node).map fun batchSize => { settings with batchSize }
  | "forwarding_batch_queue_depth" =>
    (number64? node).map fun forwardingBatchQueueDepth =>
      { settings with forwardingBatchQueueDepth }
  | "buffer_size" => (number64? node).map fun bufferSize => { settings with bufferSize }
  | "client_thread_count" =>
    (number64? node).map fun clientThreadCount => { settings with clientThreadCount }
  | "max_pending_requests" =>
    (number64? node).map fun maxPendingRequests => { settings with maxPendingRequests }
  | "receive_poll_delay" =>
    (number64? node).map fun receivePollDelay => { settings with receivePollDelay }
  | "failed_forwarding_requests_local_write_timeout" =>
    (number64? node).map fun localWriteTimeout => { settings with localWriteTimeout }
  | "checkpoint_timeout" =>
    (number64? node).map fun checkpointTimeout => { settings with checkpointTimeout }
  | "ssl" => (truth? node).map fun ssl => { settings with ssl }
  | "ssl_certificate_file" =>
    (optionalText? node).map fun sslCertificateFile => { settings with sslCertificateFile }
  | "ssl_key_file" => (optionalText? node).map fun sslKeyFile => { settings with sslKeyFile }
  | "use_acm_certificate_for_ssl" =>
    (truth? node).map fun useAcmCertificateForSsl => { settings with useAcmCertificateForSsl }
  | "acm_certificate_arn" =>
    (optionalText? node).map fun acmCertificateArn => { settings with acmCertificateArn }
  | "acm_private_key_password" =>
    (optionalText? node).map fun acmPrivateKeyPassword => { settings with acmPrivateKeyPassword }
  | "acm_certificate_timeout_millis" =>
    (number64? node).map fun acmCertificateTimeout => { settings with acmCertificateTimeout }
  | "authentication" =>
    (choice? Authentication.ofName? node).map fun authentication => { settings with authentication }
  | _ => none

/-- Settings with fields set in order. The names in `seen` are not written again. -/
def setFields (document : Yaml.Document) (seen : List String) (settings : Settings) :
    List (Yaml.Node × Yaml.Node) → Option Settings
  | [] => some settings
  | (key, value) :: rest => do
    let name ← text? (← document.resolve key)
    if seen.contains name then none
    let settings ← setField document settings name (← document.resolve value)
    setFields document (name :: seen) settings rest

/-- The settings that a document writes. One that holds nothing writes the standard settings. -/
def ofDocument? (document : Yaml.Document) : Option Settings :=
  match document.root with
  | none => some standard
  | some (.mapping _ _ entries) => setFields document [] standard entries
  | some node => if isEmptyScalar node then some standard else none

/-- The settings that a text writes, once they have been checked. -/
def ofText (text : String) : Except SettingsError Settings := do
  match (Yaml.Document.ofText? text).bind ofDocument? with
  | none => throw .malformed
  | some settings =>
    settings.validate
    return settings

end RecordRelay.Settings
