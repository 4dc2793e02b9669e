import BlockExchange.Client.Settings
import BlockExchange.Exchange.Error

namespace BlockExchange

inductive ClientError where
  | exchange (cause : ExchangeError)
  | store (cause : StoreError)
  | model (cause : ModelError)
  | unreadable
  | malformed
  | unconfiguredPeer (folder : String) (device : DeviceId)
  | unknownDevice (device : DeviceId)
  deriving DecidableEq

def ClientError.ofSettings : SettingsError → ClientError
  | .model cause => model cause
  | .unconfiguredPeer folder device => unconfiguredPeer folder device

def ClientError.message : ClientError → String
  | exchange cause => "protocol error: " ++ cause.message
  | store cause => "storage error: " ++ cause.message
  | model cause => "model error: " ++ cause.message
  | unreadable => "config I/O error"
  | malformed => "config parse error"
  | unconfiguredPeer folder device =>
    s!"invalid config: folder {folder} is shared with unconfigured device {device}"
  | unknownDevice device => s!"unknown device: {device}"

end BlockExchange
