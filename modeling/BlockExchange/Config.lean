import BlockExchange.Wire.Layout

namespace BlockExchange

open Fields

structure SharedFolder where
  id : String
  label : String
  devices : List DeviceId
  deriving DecidableEq

structure Configuration where
  device : DeviceId
  name : String
  folders : List SharedFolder
  deriving DecidableEq

structure Duration where
  seconds : Nat
  nanos : Nat := 0
  deriving DecidableEq, Repr

structure ConnectionSettings where
  keepAlive : Duration := ⟨90, 0⟩
  closeTimeout : Duration := ⟨5, 0⟩
  clientName : String := "bepsync"
  clientVersion : String := "0.1.0"
  deriving DecidableEq, Repr

def SharedFolder.isSharedWith (f : SharedFolder) (device : DeviceId) : Bool :=
  f.devices.contains device

namespace Configuration

def folder? (c : Configuration) (id : String) : Option SharedFolder :=
  c.folders.find? (·.id = id)

def foldersSharedWith (c : Configuration) (device : DeviceId) : List SharedFolder :=
  c.folders.filter (·.isSharedWith device)

end Configuration

namespace Duration

def ofParts? (seconds : UInt64) (nanos : UInt32) : Option Duration :=
  let total := seconds.toNat + nanos.toNat / 1000000000
  if total < 0x10000000000000000 then some ⟨total, nanos.toNat % 1000000000⟩ else none

def ofMillis (n : Nat) : Duration :=
  ⟨n / 1000, n % 1000 * 1000000⟩

def toMillis (d : Duration) : Nat :=
  d.seconds * 1000 + (d.nanos + 999999) / 1000000

def shape : Shape Duration :=
  .convert (fun (seconds, nanos, ()) => ofParts? seconds nanos)
    (fun d => (UInt64.ofNat d.seconds, UInt32.ofNat d.nanos, ()))
    (.closed (required "secs" .uint64 (required "nanos" .uint32 .nil)))

end Duration

def SharedFolder.shape : Shape SharedFolder :=
  .iso (fun (id, label, devices, ()) => ⟨id, label, devices⟩)
    (fun f => (f.id, f.label, f.devices, ()))
    (.record (required "folder_id" .text (required "label" .text
      (required "devices" (.sequence DeviceId.shape) .nil))))

def Configuration.shape : Shape Configuration :=
  .iso (fun (device, name, folders, ()) => ⟨device, name, folders⟩)
    (fun c => (c.device, c.name, c.folders, ()))
    (.record (required "local_device_id" DeviceId.shape (required "local_device_name" .text
      (required "folders" (.sequence SharedFolder.shape) .nil))))

def ConnectionSettings.shape : Shape ConnectionSettings :=
  .iso (fun (keepAlive, closeTimeout, name, version, ()) => ⟨keepAlive, closeTimeout, name, version⟩)
    (fun s => (s.keepAlive, s.closeTimeout, s.clientName, s.clientVersion, ()))
    (.record (required "keepalive_interval" Duration.shape
      (required "close_timeout" Duration.shape (required "client_name" .text
      (required "client_version" .text .nil)))))

end BlockExchange
