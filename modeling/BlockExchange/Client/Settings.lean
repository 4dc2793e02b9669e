import BlockExchange.Config
import BlockExchange.Json.Printer
import BlockExchange.Json.Reader
import BlockExchange.Table

namespace BlockExchange

open Fields

structure PeerSettings where
  device : String
  address : String
  deriving DecidableEq, Repr

structure FolderSettings where
  id : String
  label : Option String := none
  devices : List String := []
  deriving DecidableEq, Repr

structure ClientSettings where
  device : String
  deviceName : String
  database : Option String := none
  peers : List PeerSettings := []
  folders : List FolderSettings := []
  connection : ConnectionSettings := {}
  deriving DecidableEq, Repr

inductive SettingsError where
  | model (cause : ModelError)
  | unconfiguredPeer (folder : String) (device : DeviceId)
  deriving DecidableEq

abbrev Addresses := Table DeviceId String

namespace ClientSettings

def addAddress (known : Addresses) (p : PeerSettings) : Except SettingsError Addresses := do
  let device ← (DeviceId.ofHex p.device).mapError .model
  return known.insert device p.address

/-- Where each peer is reached; of several addresses of one device the last counts. -/
def addresses (s : ClientSettings) : Except SettingsError Addresses :=
  s.peers.foldlM addAddress {}

def folderDevice (known : Addresses) (folder : String) (hex : String) :
    Except SettingsError DeviceId := do
  let device ← (DeviceId.ofHex hex).mapError .model
  if (known.get? device).isSome then .ok device else .error (.unconfiguredPeer folder device)

def sharedFolder (known : Addresses) (f : FolderSettings) : Except SettingsError SharedFolder := do
  let devices ← f.devices.mapM (folderDevice known f.id)
  return ⟨f.id, f.label.getD f.id, devices⟩

def configuration (s : ClientSettings) : Except SettingsError Configuration := do
  let device ← (DeviceId.ofHex s.device).mapError .model
  let known ← s.addresses
  let folders ← s.folders.mapM (sharedFolder known)
  return ⟨device, s.deviceName, folders⟩

end ClientSettings

def PeerSettings.shape : Shape PeerSettings :=
  .iso (fun (device, address, ()) => ⟨device, address⟩) (fun p => (p.device, p.address, ()))
    (.record (required "device_id" .text (required "address" .text .nil)))

def FolderSettings.shape : Shape FolderSettings :=
  .iso (fun (id, label, devices, ()) => ⟨id, label, devices⟩)
    (fun f => (f.id, f.label, f.devices, ()))
    (.record (required "id" .text (.cons "label" (some none) (.optional .text)
      (.cons "devices" (some []) (.sequence .text) .nil))))

def ClientSettings.shape : Shape ClientSettings :=
  .iso
    (fun (device, deviceName, database, peers, folders, connection, ()) =>
      ⟨device, deviceName, database, peers, folders, connection⟩)
    (fun s => (s.device, s.deviceName, s.database, s.peers, s.folders, s.connection, ()))
    (.record (required "device_id" .text (required "device_name" .text
      (.cons "database_path" (some none) (.optional .text)
      (.cons "peers" (some []) (.sequence PeerSettings.shape)
      (.cons "folders" (some []) (.sequence FolderSettings.shape)
      (.cons "connection" (some {}) ConnectionSettings.shape .nil)))))))

def ClientSettings.ofJson? (text : String) : Option ClientSettings :=
  shape.ofJson? text

end BlockExchange
