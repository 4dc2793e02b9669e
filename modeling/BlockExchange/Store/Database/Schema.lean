import BlockExchange.Store.Database.Answer

namespace BlockExchange

namespace Database

structure KeptTables extends Contents where
  sequence : Option SequenceRow := none
  deriving DecidableEq

end Database

structure Database where
  versions : List Int := []
  tables : Option Database.KeptTables := none
  deriving DecidableEq

namespace Database

def latestVersion (d : Database) : Int :=
  (d.versions.max?).getD 0

def createTables (d : Database) : Except DatabaseFault Database :=
  match d.tables with
  | none => .ok { d with tables := some {} }
  | some _ => .error (.existingTable "index_sequence")

def upgrades : List (Database → Except DatabaseFault Database) :=
  [createTables]

def upgradeBy (d : Database) (upgrade : Database → Except DatabaseFault Database) (version : Nat) :
    Except DatabaseFault Database := do
  let d ← upgrade d
  return { d with versions := d.versions ++ [(version : Int)] }

/-- Runs the upgrades that lead to later versions than the latest recorded one. -/
def migrate (d : Database) : Except DatabaseFault Database :=
  let latest := d.latestVersion
  if latest < 0 ∨ 0x100000000 ≤ latest then .error (.schemaVersion latest)
  else
    ((upgrades.drop latest.toNat).zipIdx (latest.toNat + 1)).foldlM
      (fun d (upgrade, version) => d.upgradeBy upgrade version) d

def KeptTables.withSequence (t : KeptTables) (draw : UInt64) : Tables :=
  { t with sequence := t.sequence.getD ⟨epochOf draw, 0⟩ }

def openTables (d : Database) (draw : UInt64) : Except DatabaseFault (List Int × Tables) := do
  let d ← d.migrate
  match d.tables with
  | some tables => .ok (d.versions, tables.withSequence draw)
  | none => .error (.missingTable "index_sequence")

def Tables.kept (t : Tables) : KeptTables :=
  { t with sequence := some t.sequence }

inductive Damage where
  | deviceId (folder text : String)
  | fileType (folder path text : String)
  | noTarget (folder path : String)
  | versions (folder path : String) (blob : Bytes)
  | blocks (folder path : String) (blob : Bytes)
  | schemaVersion (n : Int)

def Contents.damageFile (t : Contents) (folder path : String) (change : FileRow → FileRow) :
    Contents :=
  { t with
    files := t.files.map fun row => if Tables.isFileAt folder path row then change row else row }

def Contents.damage (t : Contents) : Damage → Contents
  | .deviceId folder text =>
    { t with
      markers := t.markers.map fun row =>
        if row.folder = folder then { row with device := text } else row }
  | .fileType folder path text =>
    t.damageFile folder path fun row => { row with fileType := text, size := none, hash := none }
  | .noTarget folder path => t.damageFile folder path fun row => { row with target := none }
  | .versions folder path blob => t.damageFile folder path fun row => { row with versions := blob }
  | .blocks folder path blob =>
    { t with
      blocks := t.blocks.map fun row =>
        if Tables.isBlocksAt folder path row then { row with blocks := blob } else row }
  | .schemaVersion _ => t

def damage (d : Database) : Damage → Database
  | .schemaVersion n => { d with versions := d.versions ++ [n] }
  | change =>
    { d with tables := d.tables.map fun t => { t with toContents := t.toContents.damage change } }

end Database

end BlockExchange
