import BlockExchange.Hex

namespace BlockExchange

inductive Mismatch where
  | folder
  | path
  | size
  | hash
  deriving DecidableEq, Repr

inductive ModelError where
  | deviceIdNotHex (cause : HexError)
  | deviceIdLength (text : String)
  | blocksMismatch (folder path : String) (part : Mismatch)
  | blocksOnNonFile (kind : String)
  | blockHashNotHex (cause : HexError)
  deriving DecidableEq, Repr

def Mismatch.name : Mismatch → String
  | folder => "folder"
  | path => "path"
  | size => "size"
  | hash => "hash"

def ModelError.message : ModelError → String
  | deviceIdNotHex cause => "invalid device id: " ++ cause.message
  | deviceIdLength text => "invalid device id: expected 32 bytes: " ++ text
  | blocksMismatch folder path part =>
    s!"block list for {folder}/{path} does not match file record: " ++ part.name
  | blocksOnNonFile kind => "file blocks require a file record, got " ++ kind
  | blockHashNotHex cause => "invalid block hash: " ++ cause.message

end BlockExchange
