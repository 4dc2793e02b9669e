import BlockExchange.Model.DeviceId
import BlockExchange.Store.Error
import BlockExchange.Wire.Frame

namespace BlockExchange

inductive Violation where
  | expectedClusterConfig (kind : String)
  | unexpected (kind : String)
  | unknownResponse (id : Int32)
  deriving DecidableEq, Repr

inductive HelloFault where
  | noDeviceName
  | noClientName
  deriving DecidableEq, Repr

inductive ExchangeError where
  | violation (v : Violation)
  | authentication (expected actual : DeviceId)
  | hello (fault : HelloFault)
  | noMarker (device : DeviceId) (folder : String)
  | broken
  | codec (cause : CodecError)
  | closed
  | cancelled
  | unknownAddress (address : String)
  | store (cause : StoreError)
  | model (cause : ModelError)
  | worker (cause : String)
  deriving DecidableEq

def Violation.message : Violation → String
  | expectedClusterConfig kind => "expected cluster config, got " ++ kind
  | unexpected kind => s!"unexpected {kind} message"
  | unknownResponse id => s!"response for unknown request id {id}"

def HelloFault.message : HelloFault → String
  | noDeviceName => "empty device name"
  | noClientName => "empty client name"

def ExchangeError.message : ExchangeError → String
  | violation v => "protocol violation: " ++ v.message
  | authentication expected actual =>
    s!"authentication failed: expected {expected}, got {actual}"
  | hello fault => "invalid hello: " ++ fault.message
  | noMarker device folder => s!"no index info for device {device} in folder {folder}"
  | broken => "I/O error: broken pipe"
  | codec cause => "codec error: " ++ cause.message
  | closed => "connection closed"
  | cancelled => "cancelled"
  | unknownAddress address => "unknown address: " ++ address
  | store cause => "store error: " ++ cause.message
  | model cause => "model error: " ++ cause.message
  | worker cause => "worker task failed: " ++ cause

end BlockExchange
